import Mathlib.Data.List.Lex
import Mathlib.Data.Prod.Lex
import Tableinator.Effect.Trace
import Tableinator.Relational.Waiting
import Tableinator.Store.Coherence

/-! # The lock order of the graph writer

Two executions of `write_document_graph` over different documents meet only at rows
they share: vertices, and the rows of `member_of` and `same_as`.  Every execution comes
to those in one order, that of the phase, the relation and the key; the
document-scoped deletes in between, and the edges that name a document, touch rows of
its own documents only.  So no set of executions can wait for each other in a circle. -/

namespace Tableinator

open Effect Relational Tableinator.Graph

/-! ## The rows a statement touches -/

/-- What a writer waits for: the key of a vertex or of an edge. -/
inductive LockKey where
  | vertex (v : VertexRelation) (key : Option Cell)
  | edge (r : EdgeRelation) (key : List (Option Cell))
  deriving DecidableEq

/-- The rows of a statement, one access after another: an insert takes its rows in array
    order, a delete takes the rows its predicate names. -/
def Statement.accesses : {ρ : Type} → Statement ρ → List (Set LockKey)
  | _, .insertVertices v rows => rows.map fun row => {.vertex v row.key}
  | _, .deleteScoped r ids =>
    [{key | ∃ row : EdgeRow r, (∃ dataId ∈ ids, row.Names dataId) ∧ key = .edge r row.key}]
  | _, .insertEdges r rows => rows.map fun row => {.edge r row.key}
  | _, _ => []

section

variable (rt : Runtime) (t : DataType) (documents : List (String × Document))

def vertexStatements : List (Statement PUnit) :=
  (vertexRelations.filter fun v => vertexRows rt t documents v ≠ []).map fun v =>
    .insertVertices v (vertexRows rt t documents v)

def scopedStatements : List (Statement PUnit) :=
  (replacedOrder.filter fun r => replacedIds rt t documents r ≠ []).map fun r =>
    .deleteScoped r (replacedIds rt t documents r)

def edgeStatements : List (Statement PUnit) :=
  (edgeRelations.filter fun r => edgeRows rt t documents r ≠ []).map fun r =>
    .insertEdges r (edgeRows rt t documents r)

/-- The statements `write_document_graph` issues. -/
def graphStatements : List (Statement PUnit) :=
  vertexStatements rt t documents ++ scopedStatements rt t documents ++ edgeStatements rt t documents

/-- The rows they touch, in order. -/
def graphAccesses : List (Set LockKey) := (graphStatements rt t documents).flatMap Statement.accesses

/-- The rows one execution of `write_document_graph` touches, as the database answers it: a
    statement that fails is its last. -/
def accessesOf (answers : Environment Statement WriteError) : List (Set LockKey) :=
  ((writeDocumentGraph rt t documents).trace answers []).2.flatMap fun entry => entry.op.accesses

theorem writeDocumentGraph_eq :
    writeDocumentGraph rt t documents =
      (graphStatements rt t documents).forM fun op => (Program.await op : Transaction PUnit) := by
  have := @Program.lawful Statement WriteError
  simp only [graphStatements, vertexStatements, scopedStatements, edgeStatements, List.forM_eq_forM,
    List.forM_append, List.forM_map, bind_assoc]
  rfl

theorem accessesOf_initial (answers : Environment Statement WriteError) :
    accessesOf rt t documents answers <+: graphAccesses rt t documents := by
  obtain ⟨entries, hentries, hinitial⟩ := Program.trace_forM (ε := WriteError)
    (fun op => Statement.accesses op) answers (graphStatements rt t documents) []
  rw [accessesOf, writeDocumentGraph_eq, hentries, List.nil_append]
  exact hinitial

end

/-! ## One order of all keys -/

/-- A column value under the order of the sorts: texts, then numbers, then `NULL`. -/
def cellRank : Option Cell → ℕ ×ₗ String ×ₗ ℤ
  | some (.text s) => toLex (0, toLex (s, 0))
  | some (.bigint n) => toLex (1, toLex ("", n))
  | some .null => toLex (2, toLex ("", 0))
  | none => toLex (3, toLex ("", 0))

/-- Phase, relation, key. -/
def LockKey.rank : LockKey → ℕ ×ₗ ℕ ×ₗ List (ℕ ×ₗ String ×ₗ ℤ)
  | .vertex v key => toLex (0, toLex (vertexRelations.idxOf v, [cellRank key]))
  | .edge r key => toLex (1, toLex (edgeRelations.idxOf r, key.map cellRank))

theorem cellRank_injective : Function.Injective cellRank := by
  intro a b h
  rcases a with _ | (_ | _ | _) <;> rcases b with _ | (_ | _ | _) <;>
    simp_all [cellRank]

theorem LockKey.rank_injective : Function.Injective LockKey.rank := by
  intro a b h
  cases a with
  | vertex v key =>
    cases b with
    | vertex v' key' =>
      simp only [rank, EmbeddingLike.apply_eq_iff_eq, Prod.mk.injEq, List.cons.injEq, and_true,
        true_and] at h
      rw [(List.idxOf_inj (mem_vertexRelations v)).1 h.1, cellRank_injective h.2]
    | edge r key' => simp [rank] at h
  | edge r key =>
    cases b with
    | vertex v key' => simp [rank] at h
    | edge r' key' =>
      simp only [rank, EmbeddingLike.apply_eq_iff_eq, Prod.mk.injEq, true_and] at h
      rw [(List.idxOf_inj (mem_edgeRelations r)).1 h.1, cellRank_injective.list_map h.2]

instance : LinearOrder LockKey := LinearOrder.lift' LockKey.rank LockKey.rank_injective

theorem LockKey.le_iff {a b : LockKey} : a ≤ b ↔ a.rank ≤ b.rank := Iff.rfl

/-! ## The sorts follow the order -/

theorem le_iff_cellRank (a b : Cell) : a.le b = true ↔ cellRank (some a) ≤ cellRank (some b) := by
  cases a with
  | text a =>
    cases b with
    | text b =>
      simp only [Cell.le, cellRank, Prod.Lex.toLex_le_toLex, lt_irrefl, false_or, true_and, le_refl,
        and_true, decide_eq_true_eq]
      exact le_iff_lt_or_eq
    | _ => simp [Cell.le, cellRank, Prod.Lex.toLex_le_toLex]
  | _ => cases b <;> simp [Cell.le, cellRank, Prod.Lex.toLex_le_toLex]

theorem cons_le_cons_iff {α : Type} [LinearOrder α] {a b : α} {as bs : List α} :
    a :: as ≤ b :: bs ↔ a < b ∨ a = b ∧ as ≤ bs := by
  rw [le_iff_lt_or_eq, le_iff_lt_or_eq, List.cons_lt_cons_iff, List.cons.injEq]
  constructor
  · rintro ((hlt | ⟨heq, hlt⟩) | ⟨heq, hrest⟩)
    · exact .inl hlt
    · exact .inr ⟨heq, .inl hlt⟩
    · exact .inr ⟨heq, .inr hrest⟩
  · rintro (hlt | ⟨heq, hlt | hrest⟩)
    · exact .inl (.inl hlt)
    · exact .inl (.inr ⟨heq, hlt⟩)
    · exact .inr ⟨heq, hrest⟩

section

variable {v : VertexRelation} {r : EdgeRelation}

theorem vertexOrder_iff (a b : VertexRow v) :
    vertexOrder a.cells b.cells = true ↔ cellRank a.key ≤ cellRank b.key := by
  have hpos : 0 < (vertexColumns v).length := by cases v <;> decide
  -- the key of a vertex is its first column
  obtain ⟨x, xs, hx⟩ := List.exists_cons_of_length_pos (a.arity ▸ hpos)
  obtain ⟨y, ys, hy⟩ := List.exists_cons_of_length_pos (b.arity ▸ hpos)
  simp only [VertexRow.key, hx, hy, List.head?_cons]
  exact le_iff_cellRank x y

theorem edgeOrder_iff {as bs : List Cell} (hlength : as.length = bs.length) :
    edgeOrder as bs = true ↔
      as.map (fun a => cellRank (some a)) ≤ bs.map (fun b => cellRank (some b)) := by
  induction as generalizing bs with
  | nil =>
    obtain rfl := List.length_eq_zero_iff.1 hlength.symm
    simp [edgeOrder]
  | cons a as ih =>
    cases bs with
    | nil => cases hlength
    | cons b bs =>
      rw [edgeOrder, List.map_cons, List.map_cons, cons_le_cons_iff]
      by_cases hab : a = b
      · subst hab
        rw [if_pos rfl, ih (Nat.succ.inj hlength)]
        simp
      · have hne : cellRank (some a) ≠ cellRank (some b) := fun h =>
          hab (Option.some.inj (cellRank_injective h))
        rw [if_neg hab, le_iff_cellRank, lt_iff_le_and_ne]
        simp [hne]

theorem pairwise_vertexRows (rt : Runtime) (t : DataType) (documents : List (String × Document))
    (v : VertexRelation) : (vertexRows rt t documents v).Pairwise fun a b =>
      cellRank a.key ≤ cellRank b.key := by
  have htotal : Std.Total fun a b : VertexRow v => vertexOrder a.cells b.cells = true :=
    ⟨fun a b => by simp only [vertexOrder_iff]; exact le_total _ _⟩
  have htrans : IsTrans (VertexRow v) fun a b => vertexOrder a.cells b.cells = true :=
    ⟨fun a b c => by simp only [vertexOrder_iff]; exact le_trans⟩
  exact (List.pairwise_insertionSort _ _).imp fun h => (vertexOrder_iff _ _).1 h

theorem pairwise_edgeRows (rt : Runtime) (t : DataType) (documents : List (String × Document))
    (r : EdgeRelation) : (edgeRows rt t documents r).Pairwise fun a b =>
      a.cells.map (fun a => cellRank (some a)) ≤ b.cells.map (fun b => cellRank (some b)) := by
  have hiff : ∀ a b : EdgeRow r, edgeOrder a.cells b.cells = true ↔
      a.cells.map (fun a => cellRank (some a)) ≤ b.cells.map (fun b => cellRank (some b)) :=
    fun a b => edgeOrder_iff (a.arity.trans b.arity.symm)
  have htotal : Std.Total fun a b : EdgeRow r => edgeOrder a.cells b.cells = true :=
    ⟨fun a b => by simp only [hiff]; exact le_total _ _⟩
  have htrans : IsTrans (EdgeRow r) fun a b => edgeOrder a.cells b.cells = true :=
    ⟨fun a b c => by simp only [hiff]; exact le_trans⟩
  exact (List.pairwise_insertionSort _ _).imp fun h => (hiff _ _).1 h

end

/-! ## Each execution ascends -/

/-- The rows executions over different documents can meet at. -/
def LockKey.shared : LockKey → Prop
  | .vertex _ _ => True
  | .edge r _ => documentScope r = none

/-- An additive relation is keyed on its whole rows. -/
theorem key_of_shared {r : EdgeRelation} (hr : documentScope r = none) (row : EdgeRow r) :
    row.key = row.cells.map some := by
  obtain ⟨cells, arity⟩ := row
  cases r <;> simp only [documentScope, reduceCtorEq] at hr
  case memberOf =>
    obtain ⟨x, y, rfl⟩ := List.length_eq_two.1 arity
    rfl
  case sameAs =>
    obtain ⟨x, y, rfl⟩ := List.length_eq_two.1 arity
    rfl

section

variable {rt : Runtime} {t : DataType} {documents : List (String × Document)}

/-- Earlier accesses come to shared keys below those of later ones. -/
def Precedes (a b : Set LockKey) : Prop :=
  ∀ k ∈ a, ∀ k' ∈ b, k.shared → k'.shared → k ≤ k'

theorem vertex_le {v v' : VertexRelation} {key key' : Option Cell}
    (h : vertexRelations.idxOf v < vertexRelations.idxOf v' ∨ v = v' ∧ cellRank key ≤ cellRank key') :
    LockKey.vertex v key ≤ LockKey.vertex v' key' := by
  rw [LockKey.le_iff]
  simp only [LockKey.rank, Prod.Lex.toLex_le_toLex]
  refine .inr ⟨trivial, ?_⟩
  rcases h with hlt | ⟨rfl, hle⟩
  · exact .inl hlt
  · refine .inr ⟨rfl, cons_le_cons_iff.2 ?_⟩
    exact (lt_or_eq_of_le hle).imp_right fun heq => ⟨heq, le_refl _⟩

theorem edge_le {r r' : EdgeRelation} {key key' : List (Option Cell)}
    (h : edgeRelations.idxOf r < edgeRelations.idxOf r' ∨
      r = r' ∧ key.map cellRank ≤ key'.map cellRank) :
    LockKey.edge r key ≤ LockKey.edge r' key' := by
  rw [LockKey.le_iff]
  simp only [LockKey.rank, Prod.Lex.toLex_le_toLex]
  refine .inr ⟨trivial, ?_⟩
  rcases h with hlt | ⟨rfl, hle⟩
  · exact .inl hlt
  · exact .inr ⟨rfl, hle⟩

theorem vertex_le_edge (v : VertexRelation) (key : Option Cell) (r : EdgeRelation)
    (key' : List (Option Cell)) : LockKey.vertex v key ≤ LockKey.edge r key' := by
  rw [LockKey.le_iff]
  simp only [LockKey.rank, Prod.Lex.toLex_le_toLex]
  exact .inl Nat.zero_lt_one

theorem ordered_insertVertices (v : VertexRelation) :
    (Statement.insertVertices v (vertexRows rt t documents v)).accesses.Pairwise Precedes := by
  refine List.pairwise_map.2 ((pairwise_vertexRows rt t documents v).imp fun hle => ?_)
  rintro k rfl k' rfl _ _
  exact vertex_le (.inr ⟨rfl, hle⟩)

theorem ordered_insertEdges (r : EdgeRelation) :
    (Statement.insertEdges r (edgeRows rt t documents r)).accesses.Pairwise Precedes := by
  refine List.pairwise_map.2 ((pairwise_edgeRows rt t documents r).imp fun {a b} hle => ?_)
  rintro k rfl k' rfl hshared _
  refine edge_le (.inr ⟨rfl, ?_⟩)
  rw [key_of_shared hshared, key_of_shared hshared, List.map_map, List.map_map]
  exact hle

theorem mem_vertexAccesses {op : Statement PUnit} (h : op ∈ vertexStatements rt t documents)
    {access : Set LockKey} (haccess : access ∈ op.accesses) :
    ∃ v, ∃ row ∈ vertexRows rt t documents v, access = {LockKey.vertex v row.key} := by
  obtain ⟨v, _, rfl⟩ := List.mem_map.1 h
  obtain ⟨row, hrow, rfl⟩ := List.mem_map.1 haccess
  exact ⟨v, row, hrow, rfl⟩

theorem mem_scopedAccesses {op : Statement PUnit} (h : op ∈ scopedStatements rt t documents)
    {access : Set LockKey} (haccess : access ∈ op.accesses) {k : LockKey} (hk : k ∈ access) :
    ∃ r, ∃ row : EdgeRow r, (∃ dataId ∈ replacedIds rt t documents r, row.Names dataId) ∧
      k = .edge r row.key := by
  obtain ⟨r, _, rfl⟩ := List.mem_map.1 h
  obtain rfl := List.mem_singleton.1 haccess
  obtain ⟨row, hnames, rfl⟩ := hk
  exact ⟨r, row, hnames, rfl⟩

theorem mem_edgeAccesses {op : Statement PUnit} (h : op ∈ edgeStatements rt t documents)
    {access : Set LockKey} (haccess : access ∈ op.accesses) :
    ∃ r, ∃ row ∈ edgeRows rt t documents r, access = {LockKey.edge r row.key} := by
  obtain ⟨r, _, rfl⟩ := List.mem_map.1 h
  obtain ⟨row, hrow, rfl⟩ := List.mem_map.1 haccess
  exact ⟨r, row, hrow, rfl⟩

theorem unshared_scoped {op : Statement PUnit} (h : op ∈ scopedStatements rt t documents)
    {access : Set LockKey} (haccess : access ∈ op.accesses) {k : LockKey} (hk : k ∈ access) :
    ¬k.shared := by
  obtain ⟨r, row, ⟨dataId, _, hnames⟩, rfl⟩ := mem_scopedAccesses h haccess hk
  intro hshared
  simp only [LockKey.shared] at hshared
  simp [EdgeRow.Names, hshared] at hnames

theorem ordered_graphStatements : (graphStatements rt t documents).Pairwise fun a b =>
    ∀ x ∈ a.accesses, ∀ y ∈ b.accesses, Precedes x y := by
  have hvertices : vertexRelations.Pairwise fun v w =>
      vertexRelations.idxOf v < vertexRelations.idxOf w := by decide
  have hedges : edgeRelations.Pairwise fun r s =>
      edgeRelations.idxOf r < edgeRelations.idxOf s := by decide
  refine List.pairwise_append.2 ⟨List.pairwise_append.2 ⟨?_, ?_, ?_⟩, ?_, ?_⟩
  · refine List.pairwise_map.2 ((hvertices.filter _).imp fun hlt x hx y hy => ?_)
    obtain ⟨row, _, rfl⟩ := List.mem_map.1 hx
    obtain ⟨row', _, rfl⟩ := List.mem_map.1 hy
    rintro k rfl k' rfl _ _
    exact vertex_le (.inl hlt)
  · refine List.pairwise_of_forall_mem_list fun a ha b _ x hx y _ k hk _ _ hshared => ?_
    exact absurd hshared (unshared_scoped ha hx hk)
  · intro a _ b hb x _ y hy k _ k' hk' _ hshared
    exact absurd hshared (unshared_scoped hb hy hk')
  · refine List.pairwise_map.2 ((hedges.filter _).imp fun hlt x hx y hy => ?_)
    obtain ⟨row, _, rfl⟩ := List.mem_map.1 hx
    obtain ⟨row', _, rfl⟩ := List.mem_map.1 hy
    rintro k rfl k' rfl _ _
    exact edge_le (.inl hlt)
  · intro a ha b hb x hx y hy k hk k' hk' hshared _
    rcases List.mem_append.1 ha with hvertex | hscoped
    · obtain ⟨v, row, _, rfl⟩ := mem_vertexAccesses hvertex hx
      obtain ⟨r, row', _, rfl⟩ := mem_edgeAccesses hb hy
      obtain rfl := hk
      obtain rfl := hk'
      exact vertex_le_edge v _ r _
    · exact absurd hshared (unshared_scoped hscoped hx hk)

/-- Every execution comes to the shared keys in the one order. -/
theorem ascending_graphAccesses (rt : Runtime) (t : DataType) (documents : List (String × Document)) :
    Claims.Ascending LockKey.shared (graphAccesses rt t documents) := by
  constructor
  · intro access haccess k hk k' hk' hshared _
    obtain ⟨op, hop, hmem⟩ := List.mem_flatMap.1 haccess
    rcases List.mem_append.1 hop with hop | hedge
    · rcases List.mem_append.1 hop with hvertex | hscoped
      · obtain ⟨v, row, _, rfl⟩ := mem_vertexAccesses hvertex hmem
        exact hk.trans hk'.symm
      · exact absurd hshared (unshared_scoped hscoped hmem hk)
    · obtain ⟨r, row, _, rfl⟩ := mem_edgeAccesses hedge hmem
      exact hk.trans hk'.symm
  · refine List.pairwise_flatMap.2 ⟨fun op hop => ?_, ordered_graphStatements⟩
    rcases List.mem_append.1 hop with hop | hedge
    · rcases List.mem_append.1 hop with hvertex | hscoped
      · obtain ⟨v, _, rfl⟩ := List.mem_map.1 hvertex
        exact ordered_insertVertices v
      · obtain ⟨r, _, rfl⟩ := List.mem_map.1 hscoped
        exact List.pairwise_singleton _ _
    · obtain ⟨r, _, rfl⟩ := List.mem_map.1 hedge
      exact ordered_insertEdges r

/-! ## Different documents -/

/-- A key that is not shared belongs to one document of the execution. -/
theorem names_of_unshared {k : LockKey} (hshared : ¬k.shared)
    (h : ∃ access ∈ graphAccesses rt t documents, k ∈ access) :
    ∃ r, ∃ row : EdgeRow r, k = .edge r row.key ∧ r ∈ purgeScope t ∧
      ∃ dataId ∈ documents.map Prod.fst, row.Names dataId := by
  obtain ⟨access, haccess, hk⟩ := h
  obtain ⟨op, hop, hmem⟩ := List.mem_flatMap.1 haccess
  rcases List.mem_append.1 hop with hop | hedge
  · rcases List.mem_append.1 hop with hvertex | hscoped
    · obtain ⟨v, row, _, rfl⟩ := mem_vertexAccesses hvertex hmem
      obtain rfl := hk
      exact absurd trivial hshared
    · obtain ⟨r, row, ⟨dataId, hid, hnames⟩, rfl⟩ := mem_scopedAccesses hscoped hmem hk
      obtain ⟨data, hdocument, hreplaced⟩ := mem_replacedIds.1 hid
      exact ⟨r, row, rfl, mem_purgeScope_of_replaced hreplaced, dataId,
        List.mem_map.2 ⟨_, hdocument, rfl⟩, hnames⟩
  · obtain ⟨r, row, hrow, rfl⟩ := mem_edgeAccesses hedge hmem
    obtain rfl := hk
    obtain ⟨dataId, data, hdocument, hderived⟩ := mem_edgeRows.1 hrow
    exact ⟨r, row, rfl, mem_purgeScope_of_replaced (replaced_of_derived hshared hderived), dataId,
      List.mem_map.2 ⟨_, hdocument, rfl⟩, names_of_derived hshared hderived⟩

end

/-- The set of documents one execution writes. -/
structure GraphWrite where
  dataType : DataType
  documents : List (String × Document)

/-- The rows the execution touches. -/
def GraphWrite.accesses (rt : Runtime) (write : GraphWrite)
    (answers : Environment Statement WriteError) : List (Set LockKey) :=
  accessesOf rt write.dataType write.documents answers

/-- Executions over disjoint document sets come to the rows they can meet at in one total order
    of phase, relation and key, however each is answered, and in no interleaving does a circle of
    them wait for each other. -/
theorem graph_writers_cannot_deadlock (rt : Runtime) {ι : Type} [DecidableEq ι]
    (writes : ι → GraphWrite) (answers : ι → Environment Statement WriteError)
    (hdisjoint : ∀ i j, i ≠ j → (writes i).dataType = (writes j).dataType →
      ∀ dataId ∈ (writes i).documents.map Prod.fst, dataId ∉ (writes j).documents.map Prod.fst) :
    (∀ i, Claims.Ascending LockKey.shared ((writes i).accesses rt (answers i))) ∧
    ∀ c, Claims.Reachable (fun i => (writes i).accesses rt (answers i)) c →
      ∀ i, ¬Relation.TransGen c.WaitsFor i i := by
  have hasc : ∀ i, Claims.Ascending LockKey.shared ((writes i).accesses rt (answers i)) :=
    fun i => (ascending_graphAccesses rt _ _).of_initial (accessesOf_initial rt _ _ _)
  have htouched : ∀ {i k}, (∃ access ∈ (writes i).accesses rt (answers i), k ∈ access) →
      ∃ access ∈ graphAccesses rt (writes i).dataType (writes i).documents, k ∈ access := by
    intro i k h
    obtain ⟨access, haccess, hk⟩ := h
    exact ⟨access, (accessesOf_initial rt _ _ _).subset haccess, hk⟩
  refine ⟨hasc, fun c hreach i => Claims.waits_acyclic hasc (fun {i j k} hne hi hj => ?_) hreach i⟩
  by_contra hshared
  obtain ⟨r, row, rfl, hr, dataId, hid, hnames⟩ := names_of_unshared hshared (htouched hi)
  obtain ⟨r', row', heq, hr', other, hother, hnames'⟩ := names_of_unshared hshared (htouched hj)
  obtain ⟨rfl, hkey⟩ := LockKey.edge.inj heq
  have hsame : dataId = other :=
    EdgeRow.names_injective (EdgeRow.names_of_key hkey hnames) hnames'
  subst hsame
  exact hdisjoint i j hne (purgeScope_disjoint hr hr') dataId hid hother

/-- Two releases that list the same genres in opposite orders. -/
def twoReleases : Bool → GraphWrite
  | false => ⟨.releases, [("1", [("genres", .arr [.str "Rock", .str "Jazz"])])]⟩
  | true => ⟨.releases, [("2", [("genres", .arr [.str "Jazz", .str "Rock"])])]⟩

/-- Each statement is answered as on empty tables. -/
def answered : Environment Statement WriteError := fun _ _ op => .ok (engine.alone op Store.empty).1

theorem graph_writers_cannot_deadlock_genres :
    (∀ i, Claims.Ascending LockKey.shared ((twoReleases i).accesses concreteRuntime answered)) ∧
    ∀ c, Claims.Reachable (fun i => (twoReleases i).accesses concreteRuntime answered) c →
      ∀ i, ¬Relation.TransGen c.WaitsFor i i := by
  refine graph_writers_cannot_deadlock concreteRuntime twoReleases (fun _ => answered)
    fun i j hne _ dataId hi hj => ?_
  cases i <;> cases j <;> simp_all [twoReleases]

end Tableinator
