import Tableinator.Store.Writer

/-! # Documents and their edges

A document and its edges are coherent when the rows naming the document, in every
relation its stored payload replaces, are the rows the payload derives; and when no
row names a document that is not stored.

The entity row is the guard of the rows that name its document: both write paths
touch those rows only after they have written the entity row.  So coherence is
verified once for each path, against any interference that leaves a held document
alone, and holds of serial and of concurrent runs alike. -/

namespace Tableinator

open Effect Relational Tableinator.Graph

variable (rt : Runtime)

/-- `derive_document` of a stored payload; only a mapping derives anything. -/
def deriveStored (t : DataType) (dataId : String) (data : Json) : DocumentGraph :=
  match data with
  | .obj document => deriveDocument rt t dataId document
  | _ => .empty

structure Coherent (t : DataType) (dataId : String) (st : Store) : Prop where
  stored : ∀ row, (st.entities t).lookup dataId = some row →
    ∀ r ∈ (deriveStored rt t dataId row.data).replaced, ∀ edge : EdgeRow r, edge.Names dataId →
      (edge ∈ st.edges r ↔ edge ∈ (deriveStored rt t dataId row.data).edges r)
  absent : (st.entities t).lookup dataId = none →
    ∀ r ∈ purgeScope t, ∀ edge : EdgeRow r, edge.Names dataId → edge ∉ st.edges r

/-- The rows that say what the document is. -/
def Concerns (t : DataType) (dataId : String) : Slot → Prop
  | .entity t' dataId' => t' = t ∧ dataId' = dataId
  | .edge r row => r ∈ purgeScope t ∧ row.Names dataId
  | _ => False

variable {rt} {t t' : DataType} {dataId : String} {data : Document}

theorem mem_purgeScope_of_stored {value : Json} {r : EdgeRelation}
    (h : r ∈ (deriveStored rt t dataId value).replaced) : r ∈ purgeScope t := by
  cases value with
  | obj document => exact mem_purgeScope_of_replaced h
  | _ => simp [deriveStored, DocumentGraph.empty] at h

theorem names_of_stored {value : Json} {r : EdgeRelation} {edge : EdgeRow r}
    (hr : r ∈ (deriveStored rt t dataId value).replaced)
    (hedge : edge ∈ (deriveStored rt t dataId value).edges r) : edge.Names dataId := by
  have hscope := scoped_of_mem_purgeScope (mem_purgeScope_of_stored hr)
  cases value with
  | obj document => exact names_of_derived hscope hedge
  | _ => simp [deriveStored, DocumentGraph.empty] at hr

/-- The rows of a replaced relation that name the document are the ones it derives. -/
theorem Coherent.rows {st : Store} (h : Coherent rt t dataId st) {row : EntityRow}
    (hrow : (st.entities t).lookup dataId = some row) {r : EdgeRelation}
    (hr : r ∈ (deriveStored rt t dataId row.data).replaced) (edge : EdgeRow r) :
    edge ∈ st.edges r ∧ edge.Names dataId ↔ edge ∈ (deriveStored rt t dataId row.data).edges r := by
  constructor
  · exact fun hedge => (h.stored row hrow r hr edge hedge.2).1 hedge.1
  · intro hderived
    have hnames := names_of_stored hr hderived
    exact ⟨(h.stored row hrow r hr edge hnames).2 hderived, hnames⟩

/-- Coherence reads the payload and the rows that name the document. -/
theorem Coherent.of_data {a b : Store} (h : Coherent rt t dataId a)
    (hdata : ((b.entities t).lookup dataId).map (·.data) =
      ((a.entities t).lookup dataId).map (·.data))
    (hedges : ∀ r ∈ purgeScope t, ∀ edge : EdgeRow r, edge.Names dataId →
      (edge ∈ b.edges r ↔ edge ∈ a.edges r)) : Coherent rt t dataId b where
  stored := by
    intro row hrow r hr edge hedge
    rw [hrow, Option.map_some] at hdata
    obtain ⟨row', hrow', hsame⟩ := Option.map_eq_some_iff.1 hdata.symm
    rw [hedges r (mem_purgeScope_of_stored hr) edge hedge]
    rw [← hsame] at hr ⊢
    exact h.stored row' hrow' r hr edge hedge
  absent := by
    intro hnone r hr edge hedge
    rw [hnone, Option.map_none] at hdata
    rw [hedges r hr edge hedge]
    exact h.absent (Option.map_eq_none_iff.1 hdata.symm) r hr edge hedge

theorem lookup_eq_of_agree {a b : Store} (h : ∀ slot, Concerns t dataId slot → a.get slot = b.get slot) :
    (a.entities t).lookup dataId = (b.entities t).lookup dataId := h (.entity t dataId) ⟨rfl, rfl⟩

theorem mem_edges_iff_of_agree {a b : Store}
    (h : ∀ slot, Concerns t dataId slot → a.get slot = b.get slot) {r : EdgeRelation}
    (hr : r ∈ purgeScope t) {edge : EdgeRow r} (hedge : edge.Names dataId) :
    edge ∈ a.edges r ↔ edge ∈ b.edges r :=
  Store.get_edge_eq_iff.1 (h (.edge r edge) ⟨hr, hedge⟩)

/-- Coherence of one document, guarded by its entity row. -/
def documentGuard (rt : Runtime) (t : DataType) (dataId : String) : Guarded engine where
  inside := Concerns t dataId
  guard := .entity t dataId
  guard_inside := ⟨rfl, rfl⟩
  Inv := Coherent rt t dataId
  congr := fun hagree h => h.of_data (by rw [lookup_eq_of_agree hagree])
    fun _ hr _ hedge => (mem_edges_iff_of_agree hagree hr hedge).symm

/-! ## Changes that spare a document -/

/-- The change touches no edge that names the document and keeps its payload. -/
structure Change.Spares (rt : Runtime) (t : DataType) (dataId : String) (change : Change) :
    Prop where
  guarded : ∀ {st slot}, slot ∈ change.writes st → Concerns t dataId slot → slot = .entity t dataId
  coherent : ∀ {st}, Coherent rt t dataId st → Coherent rt t dataId (change.apply st)

theorem spares_keep : Change.keep.Spares rt t dataId where
  guarded h := by simp [Change.writes] at h
  coherent h := h

theorem spares_vertices (v : VertexRelation) (rows : List (VertexRow v)) :
    (Change.vertices v rows).Spares rt t dataId where
  guarded h hconcerns := by
    simp only [Change.writes, List.mem_toFinset, List.mem_map] at h
    obtain ⟨row, _, rfl⟩ := h
    exact hconcerns.elim
  coherent h := h.of_data rfl fun _ _ _ _ => Iff.rfl

theorem spares_aliases (targets : List (AliasRef × NativeId)) :
    (Change.aliases targets).Spares rt t dataId where
  guarded h hconcerns := by
    simp only [Change.writes, List.mem_toFinset, List.mem_map] at h
    obtain ⟨target, _, rfl⟩ := h
    exact hconcerns.elim
  coherent h := h.of_data rfl fun _ _ _ _ => Iff.rfl

theorem lookup_entities_apply (st : Store) (t' : DataType) (ids : List String)
    (f : String → Option EntityRow → Option EntityRow) :
    (((Change.entities t' ids f).apply st).entities t).lookup dataId =
      if t = t' ∧ dataId ∈ ids then f dataId ((st.entities t).lookup dataId)
      else (st.entities t).lookup dataId := by
  simp only [Change.apply]
  by_cases ht : t = t'
  · subst ht
    simp [Function.update_self, Table.lookup_alter]
  · rw [Function.update_of_ne ht]
    simp [ht]

theorem spares_entities {ids : List String} {f : String → Option EntityRow → Option EntityRow}
    (hdata : t = t' → dataId ∈ ids → ∀ row, (f dataId row).map (·.data) = row.map (·.data)) :
    (Change.entities t' ids f).Spares rt t dataId where
  guarded h hconcerns := by
    simp only [Change.writes, List.mem_toFinset, List.mem_map] at h
    obtain ⟨other, _, rfl⟩ := h
    obtain ⟨rfl, rfl⟩ := hconcerns
    rfl
  coherent {st} h := by
    refine h.of_data ?_ fun _ _ _ _ => Iff.rfl
    rw [lookup_entities_apply]
    split
    · next hmem => exact hdata hmem.1 hmem.2 _
    · rfl

theorem spares_edges {r : EdgeRelation} {rows : List (EdgeRow r)}
    (hrows : r ∈ purgeScope t → ∀ row ∈ rows, ¬row.Names dataId) :
    (Change.edges r rows).Spares rt t dataId where
  guarded h hconcerns := by
    simp only [Change.writes, List.mem_toFinset, List.mem_map, List.mem_filter] at h
    obtain ⟨row, ⟨hmem, _⟩, rfl⟩ := h
    exact absurd hconcerns.2 (hrows hconcerns.1 row hmem)
  coherent {st} h := by
    refine h.of_data rfl fun r' hr' edge hedge => ?_
    by_cases hr : r' = r
    · subst hr
      simp only [Change.apply, Function.update_self]
      refine ⟨fun hmem => ?_, mem_insertAll_of_mem⟩
      exact (mem_of_mem_insertAll hmem).resolve_right fun hrow => hrows hr' edge hrow hedge
    · simp only [Change.apply, Function.update_of_ne hr]

theorem spares_prune {r : EdgeRelation} {p : EdgeRow r → Bool}
    (hrows : r ∈ purgeScope t → ∀ row : EdgeRow r, p row = true → ¬row.Names dataId) :
    (Change.prune r p).Spares rt t dataId where
  guarded h hconcerns := by
    simp only [Change.writes, Finset.mem_image, Finset.mem_filter] at h
    obtain ⟨row, ⟨_, hp⟩, rfl⟩ := h
    exact absurd hconcerns.2 (hrows hconcerns.1 row hp)
  coherent {st} h := by
    refine h.of_data rfl fun r' hr' edge hedge => ?_
    by_cases hr : r' = r
    · subst hr
      simp only [Change.apply, Function.update_self, Finset.mem_filter, and_iff_left_iff_imp]
      intro _
      cases hp : p edge with
      | false => rfl
      | true => exact absurd hedge (hrows hr' edge hp)
    · simp only [Change.apply, Function.update_of_ne hr]

/-! ## Programs that spare a document -/

/-- The document is coherent in the session's view, and its edges are held only together
    with its entity row. -/
structure Kept (rt : Runtime) (t : DataType) (dataId : String) (l : Local Slot Store) : Prop where
  disciplined : (documentGuard rt t dataId).Disciplined l.held
  coherent : Coherent rt t dataId l.view

/-- Partial correctness of a transaction while the others leave a held document alone. -/
abbrev Ensures (rt : Runtime) (answers : ∀ {ρ}, Statement ρ → Store → Store → Prop) (t : DataType)
    (dataId : String) {α : Type} (program : Transaction α) (Q : Local Slot Store → α → Prop)
    (l : Local Slot Store) : Prop :=
  Program.wlp (LocalStep engine ((documentGuard rt t dataId).interference answers))
    (fun l => (documentGuard rt t dataId).Disciplined l.held) program Q l

section

variable {answers : ∀ {ρ}, Statement ρ → Store → Store → Prop} {l : Local Slot Store}

/-- Whatever a statement meets is coherent, whether the session holds the document or not. -/
theorem Kept.latest {snapshot latest : Store} {dead : Finset Slot} (h : Kept rt t dataId l)
    (hmoves : ((documentGuard rt t dataId).interference answers).moves l.held l.view snapshot)
    (hspans : ((documentGuard rt t dataId).interference answers).spans l.held snapshot latest dead) :
    Coherent rt t dataId latest := by
  by_cases hguard : (documentGuard rt t dataId).guard ∈ l.held
  · exact (documentGuard rt t dataId).congr
      ((hmoves.1 hguard).trans (hspans.1 hguard).1) h.coherent
  · exact hspans.2 hguard

/-- A statement that spares the document keeps it. -/
theorem Kept.step {ρ : Type} {op : Statement ρ} {reply : ρ} {l' : Local Slot Store}
    (h : Kept rt t dataId l) (hspares : ∀ snapshot dead, (op.change snapshot dead).Spares rt t dataId)
    (hstep : LocalStep engine ((documentGuard rt t dataId).interference answers) l op reply l') :
    Kept rt t dataId l' := by
  obtain ⟨snapshot, latest, dead, hmoves, hspans, _, _, rfl⟩ := hstep
  refine ⟨?_, (hspares snapshot dead).coherent (h.latest hmoves hspans)⟩
  intro slot hslot hinside
  rcases Finset.mem_union.1 hslot with hheld | hwrites
  · exact Finset.mem_union_left _ (h.disciplined slot hheld hinside)
  · obtain rfl := (hspares snapshot dead).guarded hwrites hinside
    exact Finset.mem_union_right _ hwrites

/-- Of the rows of a coherent document, at most the entity row is held. -/
structure Intact (rt : Runtime) (t : DataType) (dataId : String) (l : Local Slot Store) : Prop where
  kept : Kept rt t dataId l
  free : ∀ slot ∈ l.held, Concerns t dataId slot → slot = .entity t dataId

theorem Intact.step {ρ : Type} {op : Statement ρ} {reply : ρ} {l' : Local Slot Store}
    (h : Intact rt t dataId l) (hspares : ∀ snapshot dead, (op.change snapshot dead).Spares rt t dataId)
    (hstep : LocalStep engine ((documentGuard rt t dataId).interference answers) l op reply l') :
    Intact rt t dataId l' := by
  refine ⟨h.kept.step hspares hstep, ?_⟩
  obtain ⟨snapshot, latest, dead, _, _, _, _, rfl⟩ := hstep
  intro slot hslot hconcerns
  rcases Finset.mem_union.1 hslot with hheld | hwrites
  · exact h.free slot hheld hconcerns
  · exact (hspares snapshot dead).guarded hwrites hconcerns

/-- A program of statements that spare the document leaves its edges alone. -/
theorem intact_of_issues {α : Type} {program : Transaction α} (h : Intact rt t dataId l)
    (hissues : Program.Issues (fun op => ∀ snapshot dead,
      (op.change snapshot dead).Spares rt t dataId) program) :
    Ensures rt answers t dataId program (fun l _ => Intact rt t dataId l) l := by
  refine Program.wlp_of_issues (fun op reply l l' hspares h hstep => ?_) hissues h
  have hintact := h.step hspares hstep
  exact ⟨hintact.kept.disciplined, hintact⟩

theorem intact_start {v : Store} (h : Coherent rt t dataId v) : Intact rt t dataId ⟨v, ∅⟩ where
  kept := ⟨fun _ hslot => absurd hslot (Finset.notMem_empty _), h⟩
  free _ hslot := absurd hslot (Finset.notMem_empty _)

/-! ## The rows of a batch -/

variable {documents : List (String × Document)} {r : EdgeRelation}

theorem mem_replacedIds : dataId ∈ replacedIds rt t documents r ↔
    ∃ data, (dataId, data) ∈ documents ∧ r ∈ (deriveDocument rt t dataId data).replaced := by
  simp only [replacedIds, derivedGraphs, List.mem_insertionSort, List.mem_map, List.mem_filter,
    Prod.exists, decide_eq_true_eq]
  constructor
  · rintro ⟨_, graph, ⟨⟨dataId', data, hmem, heq⟩, hr⟩, rfl⟩
    obtain ⟨rfl, rfl⟩ := Prod.mk.inj heq
    exact ⟨data, hmem, hr⟩
  · rintro ⟨data, hmem, hr⟩
    exact ⟨dataId, _, ⟨⟨dataId, data, hmem, rfl⟩, hr⟩, rfl⟩

theorem mem_edgeRows {edge : EdgeRow r} : edge ∈ edgeRows rt t documents r ↔
    ∃ dataId data, (dataId, data) ∈ documents ∧ edge ∈ (deriveDocument rt t dataId data).edges r := by
  simp only [edgeRows, derivedGraphs, List.mem_insertionSort, mem_unique, List.mem_flatMap,
    List.mem_map, Prod.exists]
  constructor
  · rintro ⟨_, graph, ⟨dataId', data, hmem, heq⟩, hedge⟩
    obtain ⟨rfl, rfl⟩ := Prod.mk.inj heq
    exact ⟨dataId', data, hmem, hedge⟩
  · rintro ⟨dataId', data, hmem, hedge⟩
    exact ⟨dataId', _, ⟨dataId', data, hmem, rfl⟩, hedge⟩

/-- The edges of a batch that name one of its documents are the ones it derives. -/
theorem mem_edgeRows_names (hmem : (dataId, data) ∈ documents)
    (hunique : ∀ data', (dataId, data') ∈ documents → data' = data) {edge : EdgeRow r}
    (hedge : edge.Names dataId) : edge ∈ edgeRows rt t documents r ↔
      edge ∈ (deriveDocument rt t dataId data).edges r := by
  rw [mem_edgeRows]
  constructor
  · rintro ⟨other, data', hother, hderived⟩
    have hscope : documentScope r ≠ none := by
      intro hnone
      simp [EdgeRow.Names, hnone] at hedge
    obtain rfl := EdgeRow.names_injective hedge (names_of_derived hscope hderived)
    rwa [hunique data' hother] at hderived
  · exact fun hderived => ⟨dataId, data, hmem, hderived⟩

/-- The graph rows of documents without this one spare it. -/
theorem spares_writeDocumentGraph (hother : t' = t → ∀ data, (dataId, data) ∉ documents) :
    Program.Issues (fun op => ∀ snapshot dead, (op.change snapshot dead).Spares rt t dataId)
      (writeDocumentGraph rt t' documents) := by
  have hscope : ∀ {r : EdgeRelation}, r ∈ purgeScope t → r ∈ purgeScope t' → t' = t :=
    fun h h' => purgeScope_disjoint h' h
  refine issues_writeDocumentGraph (fun v _ _ => spares_vertices v _) (fun r _ _ => ?_) fun r _ _ => ?_
  · refine spares_prune fun hr row hp hnames => ?_
    simp only [Statement.doomed, decide_eq_true_eq, List.any_eq_true] at hp
    obtain ⟨_, _, other, hids, hother'⟩ := hp
    obtain ⟨data, hmem, hreplaced⟩ := mem_replacedIds.1 hids
    obtain rfl := EdgeRow.names_injective hnames (by simpa using hother')
    exact hother (hscope hr (mem_purgeScope_of_replaced hreplaced)) data hmem
  · refine spares_edges fun hr row hrow hnames => ?_
    obtain ⟨other, data, hmem, hderived⟩ := mem_edgeRows.1 hrow
    have hscoped := scoped_of_mem_purgeScope hr
    obtain rfl := EdgeRow.names_injective hnames (names_of_derived hscoped hderived)
    exact hother (hscope hr (mem_purgeScope_of_replaced (replaced_of_derived hscoped hderived)))
      data hmem

/-! ## Rewriting a held document -/

/-- The entity row holds this payload. -/
def Stored (t : DataType) (dataId : String) (data : Document) (st : Store) : Prop :=
  ((st.entities t).lookup dataId).map (·.data) = some (.obj data)

/-- The session has written the document and every row that names it. -/
structure Written (rt : Runtime) (t : DataType) (dataId : String) (data : Document)
    (l : Local Slot Store) : Prop where
  guard : .entity t dataId ∈ l.held
  stored : Stored t dataId data l.view
  exact : ∀ r ∈ (deriveDocument rt t dataId data).replaced, ∀ edge : EdgeRow r,
    edge.Names dataId → (edge ∈ l.view.edges r ↔ edge ∈ (deriveDocument rt t dataId data).edges r)
  fresh : ∀ r ∈ (deriveDocument rt t dataId data).replaced, ∀ edge : EdgeRow r,
    edge.Names dataId → edge ∈ l.view.edges r → .edge r edge ∈ l.held

theorem Stored.payload {st : Store} (h : Stored t dataId data st) {row : EntityRow}
    (hrow : (st.entities t).lookup dataId = some row) : row.data = .obj data := by
  rw [Stored, hrow] at h
  simpa using h

theorem Written.coherent (h : Written rt t dataId data l) : Coherent rt t dataId l.view where
  stored := by
    intro row hrow
    rw [h.stored.payload hrow]
    exact h.exact
  absent := by
    intro hnone
    have hstored := h.stored
    rw [Stored, hnone] at hstored
    cases hstored

/-- A statement of a session that holds the document: it meets the rows of its view. -/
theorem held_await {op : Statement PUnit} {Q : Local Slot Store → Prop}
    (hguard : .entity t dataId ∈ l.held)
    (heffect : ∀ snapshot latest dead, (documentGuard rt t dataId).Agree l.view snapshot →
      (documentGuard rt t dataId).Agree l.view latest → (∀ slot ∈ dead, ¬Concerns t dataId slot) →
      Q ⟨(op.change snapshot dead).apply latest,
        l.held ∪ (op.change snapshot dead).writes latest⟩) :
    Ensures rt answers t dataId (Program.await op) (fun l _ => Q l) l := by
  rintro reply l' ⟨snapshot, latest, dead, hmoves, hspans, _, _, rfl⟩
  obtain ⟨hagree, hdead⟩ := hspans.1 hguard
  exact ⟨fun _ _ _ => Finset.mem_union_left _ hguard,
    heffect snapshot latest dead (hmoves.1 hguard) ((hmoves.1 hguard).trans hagree) hdead⟩

/-- The document is written, and the relations outside `rest` hold no row that names it. -/
structure Clearing (rt : Runtime) (t : DataType) (dataId : String) (data : Document)
    (rest : List EdgeRelation) (l : Local Slot Store) : Prop where
  guard : .entity t dataId ∈ l.held
  stored : Stored t dataId data l.view
  cleared : ∀ r ∈ (deriveDocument rt t dataId data).replaced, r ∉ rest →
    ∀ edge : EdgeRow r, edge.Names dataId → edge ∉ l.view.edges r

/-- The relations outside `rest` hold the derived rows, the others none yet. -/
structure Filling (rt : Runtime) (t : DataType) (dataId : String) (data : Document)
    (rest : List EdgeRelation) (l : Local Slot Store) : Prop where
  guard : .entity t dataId ∈ l.held
  stored : Stored t dataId data l.view
  cleared : ∀ r ∈ (deriveDocument rt t dataId data).replaced, r ∈ rest →
    ∀ edge : EdgeRow r, edge.Names dataId → edge ∉ l.view.edges r
  exact : ∀ r ∈ (deriveDocument rt t dataId data).replaced, r ∉ rest →
    ∀ edge : EdgeRow r, edge.Names dataId →
      (edge ∈ l.view.edges r ↔ edge ∈ (deriveDocument rt t dataId data).edges r)
  fresh : ∀ r ∈ (deriveDocument rt t dataId data).replaced, r ∉ rest →
    ∀ edge : EdgeRow r, edge.Names dataId → edge ∈ l.view.edges r → .edge r edge ∈ l.held

theorem Stored.of_agree {a b : Store} (h : Stored t dataId data a)
    (hagree : (documentGuard rt t dataId).Agree a b) : Stored t dataId data b := by
  rw [Stored, ← lookup_eq_of_agree hagree]
  exact h

theorem clearing_deleteScoped {rest : List EdgeRelation} (hmem : (dataId, data) ∈ documents)
    (h : Clearing rt t dataId data (r :: rest) l) :
    Ensures rt answers t dataId
      (Program.await (.deleteScoped r (replacedIds rt t documents r)))
      (fun l _ => Clearing rt t dataId data rest l) l := by
  refine held_await h.guard fun snapshot latest dead hsnapshot hlatest hdead => ?_
  have hstored : Stored t dataId data latest := h.stored.of_agree hlatest
  refine ⟨Finset.mem_union_left _ h.guard, hstored, fun r' hr' hrest edge hedge => ?_⟩
  have hscope := mem_purgeScope_of_replaced hr'
  simp only [Statement.change, Change.apply]
  by_cases hr : r' = r
  · subst hr
    rw [Function.update_self, Finset.mem_filter]
    rintro ⟨hlive, hspared⟩
    have hsnap : edge ∈ snapshot.edges r' := by
      rw [← mem_edges_iff_of_agree hsnapshot hscope hedge,
        mem_edges_iff_of_agree hlatest hscope hedge]
      exact hlive
    have halive : Slot.edge r' edge ∉ dead := fun hslot => hdead _ hslot ⟨hscope, hedge⟩
    have hnamed : (replacedIds rt t documents r').any (fun other => edge.Names other) = true :=
      List.any_eq_true.2 ⟨dataId, mem_replacedIds.2 ⟨data, hmem, hr'⟩, by simpa using hedge⟩
    simp [Statement.doomed, hsnap, halive, hnamed] at hspared
  · rw [Function.update_of_ne hr, ← mem_edges_iff_of_agree hlatest hscope hedge]
    exact h.cleared r' hr' (by simp [hr, hrest]) edge hedge

theorem filling_insertEdges {rest : List EdgeRelation} (hmem : (dataId, data) ∈ documents)
    (hunique : ∀ data', (dataId, data') ∈ documents → data' = data) (hrest : r ∉ rest)
    (h : Filling rt t dataId data (r :: rest) l) :
    Ensures rt answers t dataId (Program.await (.insertEdges r (edgeRows rt t documents r)))
      (fun l _ => Filling rt t dataId data rest l) l := by
  refine held_await h.guard fun snapshot latest dead _ hlatest _ => ?_
  -- the relations already filled, and those still to be, are not touched
  have hother : ∀ r' ∈ (deriveDocument rt t dataId data).replaced, r' ≠ r →
      ∀ edge : EdgeRow r', edge.Names dataId →
        (edge ∈ ((Change.edges r (edgeRows rt t documents r)).apply latest).edges r' ↔
          edge ∈ l.view.edges r') := by
    intro r' hr' hr edge hedge
    simp only [Change.apply]
    rw [Function.update_of_ne hr,
      mem_edges_iff_of_agree hlatest (mem_purgeScope_of_replaced hr') hedge]
  -- the relation itself held no row that names the document, so every insert took
  have hself : r ∈ (deriveDocument rt t dataId data).replaced → ∀ edge : EdgeRow r,
      edge.Names dataId → edge ∉ latest.edges r ∧
        (edge ∈ insertAll EdgeRow.key (latest.edges r) (edgeRows rt t documents r) ↔
          edge ∈ (deriveDocument rt t dataId data).edges r) := by
    intro hr edge hedge
    have hscope := mem_purgeScope_of_replaced hr
    have hnone : ∀ edge : EdgeRow r, edge.Names dataId → edge ∉ latest.edges r := by
      intro edge hedge
      rw [← mem_edges_iff_of_agree hlatest hscope hedge]
      exact h.cleared r hr List.mem_cons_self edge hedge
    have hfree : ¬Taken EdgeRow.key (latest.edges r) edge := by
      rintro ⟨other, hmem, hkey⟩
      exact hnone other (EdgeRow.names_of_key hkey.symm hedge) hmem
    refine ⟨hnone edge hedge, ?_⟩
    rw [mem_insertAll]
    constructor
    · rintro (hold | ⟨_, hfind⟩)
      · exact absurd hold (hnone edge hedge)
      · exact (mem_edgeRows_names hmem hunique hedge).1 (List.mem_of_find?_eq_some hfind)
    · intro hderived
      refine .inr ⟨hfree, ?_⟩
      have hrow := (mem_edgeRows_names hmem hunique hedge).2 hderived
      cases hfind : (edgeRows rt t documents r).find? (fun other => other.key = edge.key) with
      | none => exact absurd (List.find?_eq_none.1 hfind edge hrow) (by simp)
      | some first =>
        have hkey : first.key = edge.key := by simpa using List.find?_some hfind
        have hnames := EdgeRow.names_of_key hkey.symm hedge
        have hfirst := (mem_edgeRows_names hmem hunique hnames).1 (List.mem_of_find?_eq_some hfind)
        rw [derived_key_injective hfirst hderived hkey]
  have hstored : Stored t dataId data latest := h.stored.of_agree hlatest
  refine ⟨Finset.mem_union_left _ h.guard, hstored, ?_, ?_, ?_⟩
  · intro r' hr' hin edge hedge
    have hne : r' ≠ r := fun heq => hrest (heq ▸ hin)
    simp only [Statement.change, hother r' hr' hne edge hedge]
    exact h.cleared r' hr' (List.mem_cons_of_mem _ hin) edge hedge
  · intro r' hr' hout edge hedge
    by_cases hr : r' = r
    · subst hr
      simp only [Statement.change, Change.apply, Function.update_self]
      exact (hself hr' edge hedge).2
    · simp only [Statement.change, hother r' hr' hr edge hedge]
      exact h.exact r' hr' (by simp [hr, hout]) edge hedge
  · intro r' hr' hout edge hedge hpresent
    by_cases hr : r' = r
    · subst hr
      simp only [Statement.change, Change.apply, Function.update_self] at hpresent
      refine Finset.mem_union_right _ ?_
      simp only [Statement.change, Change.writes, List.mem_toFinset, List.mem_map, List.mem_filter,
        decide_eq_true_eq]
      exact ⟨edge, ⟨(mem_edgeRows_names hmem hunique hedge).2 ((hself hr' edge hedge).2.1 hpresent),
        hpresent, (hself hr' edge hedge).1⟩, rfl⟩
    · simp only [Statement.change, hother r' hr' hr edge hedge] at hpresent
      exact Finset.mem_union_left _ (h.fresh r' hr' (by simp [hr, hout]) edge hedge hpresent)

theorem mem_replacedOrder (hr : documentScope r ≠ none) : r ∈ replacedOrder := by
  cases r <;> first | decide | exact absurd rfl hr

theorem replacedOrder_nodup : replacedOrder.Nodup := by decide

/-- Rewriting the graph rows of a document whose entity row the session has written. -/
theorem written_writeDocumentGraph (hmem : (dataId, data) ∈ documents)
    (hunique : ∀ data', (dataId, data') ∈ documents → data' = data)
    (hguard : .entity t dataId ∈ l.held) (hstored : Stored t dataId data l.view) :
    Ensures rt answers t dataId (writeDocumentGraph rt t documents)
      (fun l _ => Written rt t dataId data l) l := by
  simp only [writeDocumentGraph, Program.wlp_bind]
  refine Program.wlp_mono (Program.wlp_forM (fun _ l => .entity t dataId ∈ l.held ∧
    Stored t dataId data l.view) ⟨hguard, hstored⟩ fun v rest l h => ?_) fun l _ h => ?_
  · refine held_await h.1 fun snapshot latest dead _ hlatest _ => ?_
    have hstored : Stored t dataId data latest := h.2.of_agree hlatest
    exact ⟨Finset.mem_union_left _ h.1, hstored⟩
  refine Program.wlp_mono (Program.wlp_forM (fun rest l => Clearing rt t dataId data rest l)
    ⟨h.1, h.2, fun r hr hrest => ?_⟩ fun r rest l h => clearing_deleteScoped hmem h)
    fun l _ h => ?_
  · -- a replaced relation is in the loop, since the document is in its list of ids
    refine absurd (List.mem_filter.2 ⟨mem_replacedOrder (scoped_of_mem_purgeScope
      (mem_purgeScope_of_replaced hr)), ?_⟩) hrest
    simpa using List.ne_nil_of_mem (mem_replacedIds.2 ⟨data, hmem, hr⟩)
  refine Program.wlp_mono (Program.wlp_forM
    (fun rest l => rest.Nodup ∧ Filling rt t dataId data rest l)
    ⟨edgeRelations_nodup.filter _, h.guard, h.stored, fun r hr _ => h.cleared r hr (by simp), ?_, ?_⟩
    fun r rest l h => ?_) fun l _ h => ⟨h.2.guard, h.2.stored, ?_, ?_⟩
  · intro r hr hrest edge hedge
    have hempty : edgeRows rt t documents r = [] := by
      by_contra hne
      exact hrest (List.mem_filter.2 ⟨mem_edgeRelations r, by simpa using hne⟩)
    rw [← mem_edgeRows_names hmem hunique hedge, hempty]
    simpa using h.cleared r hr (by simp) edge hedge
  · intro r hr hrest edge hedge hpresent
    exact absurd hpresent (h.cleared r hr (by simp) edge hedge)
  · refine Program.wlp_mono (filling_insertEdges hmem hunique (List.nodup_cons.1 h.1).1 h.2)
      fun l _ hl => ⟨(List.nodup_cons.1 h.1).2, hl⟩
  · exact fun r hr edge hedge => h.2.exact r hr (by simp) edge hedge
  · exact fun r hr edge hedge => h.2.fresh r hr (by simp) edge hedge

end

end Tableinator
