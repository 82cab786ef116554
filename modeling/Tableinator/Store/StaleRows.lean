import Tableinator.Store.Replacement

/-! # What the stale-row purge removes

`purge_stale_rows` with no writer beside it.  Its edge deletes run before the entity
delete and touch no entity row, so all of them name the same stale documents; and the
relations it sweeps are the ones a document of the type can replace, so the rows that
go are the ones the stale documents own. -/

namespace Tableinator

open Effect Relational Tableinator.Graph

/-- A document of the type can replace rows of this relation. -/
def Replaceable (rt : Runtime) (t : DataType) (dataId : String) (r : EdgeRelation) : Prop :=
  ∃ data, r ∈ (deriveDocument rt t dataId data).replaced

/-- The row is scoped to the document. -/
def Owns (rt : Runtime) (t : DataType) (dataId : String) {r : EdgeRelation} (row : EdgeRow r) : Prop :=
  Replaceable rt t dataId r ∧ row.Names dataId

/-- What makes `purge_stale_rows` return before its first delete. -/
def PurgeSkips (cap : Rat) (t : DataType) (startedAt : Option Time) (recordCount : Option Nat)
    (st : Store) : Prop :=
  match startedAt with
  | none => True
  | some startedAt => recordCount = some 0 ∨ (st.entities t).rows.length = 0 ∨
      (st.staleIds t startedAt).length = 0 ∨
      cap ≤ ((st.staleIds t startedAt).length : Rat) / (st.entities t).rows.length

/-- The rows of the stale documents are gone, and no others. -/
structure PurgedExactly (rt : Runtime) (t : DataType) (startedAt : Time) (st st' : Store) : Prop where
  entities : ∀ t' dataId, (st'.entities t').lookup dataId =
    if t' = t then ((st.entities t').lookup dataId).filter fun row => !row.stale startedAt
    else (st.entities t').lookup dataId
  edges : ∀ r, ∀ row : EdgeRow r, row ∈ st'.edges r ↔
    row ∈ st.edges r ∧ ¬∃ dataId ∈ st.staleIds t startedAt, Owns rt t dataId row
  vertices : st'.vertices = st.vertices
  aliases : st'.aliases = st.aliases

variable {rt : Runtime} {cap : Rat} {t t' : DataType} {dataId : String} {startedAt : Time}
variable {r : EdgeRelation} {st st' : Store}

/-! ## The two tables of relations agree -/

/-- `_PURGE_SCOPE` lists the relations a document of the type can replace. -/
theorem replaceable_iff : Replaceable rt t dataId r ↔ r ∈ purgeScope t := by
  constructor
  · rintro ⟨data, hreplaced⟩
    exact mem_purgeScope_of_replaced hreplaced
  · intro hscope
    -- a release replaces `credited_to` only if it carries a companies mapping
    refine ⟨[("companies", .obj [])], ?_⟩
    cases t with
    | labels => cases hscope
    | artists => simpa [deriveDocument, deriveArtist, purgeScope] using hscope
    | masters => simpa [deriveDocument, deriveMaster, purgeScope] using hscope
    | releases =>
      have hcompanies : (Document.get [("companies", Json.obj [])] "companies").mapping?.isSome = true := rfl
      cases r <;> simp_all [deriveDocument, deriveRelease, purgeScope]

theorem purgeScope_nodup (t : DataType) : (purgeScope t).Nodup := by
  cases t <;> decide

/-! ## The statements -/

theorem alone_purgeEdges (r : EdgeRelation) (st : Store) :
    (engine.alone (.purgeEdges r t startedAt) st).2 = { st with
      edges := Function.update st.edges r
        ((st.edges r).filter fun row => ¬∃ dataId ∈ st.staleIds t startedAt, row.Names dataId) } := by
  have hfilter : (st.edges r).filter (fun row => Statement.doomed st ∅ r
        (fun row => (st.staleIds t startedAt).any fun dataId => row.Names dataId) row = false) =
      (st.edges r).filter fun row => ¬∃ dataId ∈ st.staleIds t startedAt, row.Names dataId := by
    refine Finset.filter_congr fun row hrow => ?_
    simp [Statement.doomed, hrow]
  show Change.apply st (.prune r _) = _
  simp only [Change.apply, hfilter]

/-- The edge deletes leave the stale set as it was. -/
theorem foldl_purgeEdges (relations : List EdgeRelation) (st : Store) :
    relations.foldl (fun st r => (engine.alone (.purgeEdges r t startedAt) st).2) st = { st with
      edges := relations.foldl (fun edges r => Function.update edges r ((edges r).filter fun row =>
        ¬∃ dataId ∈ st.staleIds t startedAt, row.Names dataId)) st.edges } :=
  List.foldl_hom (fun edges => { st with edges := edges }) fun edges r =>
    alone_purgeEdges r { st with edges := edges }

theorem mem_purgedEdges {row : EdgeRow r} (edges : (r : EdgeRelation) → Finset (EdgeRow r))
    (ids : List String) :
    row ∈ (purgeScope t).foldl (fun edges r => Function.update edges r ((edges r).filter fun row =>
        ¬∃ dataId ∈ ids, row.Names dataId)) edges r ↔
      row ∈ edges r ∧ ¬∃ dataId ∈ ids, Owns rt t dataId row := by
  have howns : (∃ dataId ∈ ids, Owns rt t dataId row) ↔
      r ∈ purgeScope t ∧ ∃ dataId ∈ ids, row.Names dataId := by
    simp only [Owns, replaceable_iff]
    constructor
    · rintro ⟨dataId, hmem, hscope, hnames⟩
      exact ⟨hscope, dataId, hmem, hnames⟩
    · rintro ⟨hscope, dataId, hmem, hnames⟩
      exact ⟨dataId, hmem, hscope, hnames⟩
  rw [foldl_update (fun r (edges : Finset (EdgeRow r)) => edges.filter fun row =>
    ¬∃ dataId ∈ ids, row.Names dataId) (purgeScope_nodup t), howns]
  by_cases hscope : r ∈ purgeScope t
  · rw [if_pos hscope, Finset.mem_filter]
    simp only [hscope, true_and]
  · rw [if_neg hscope]
    simp only [hscope, false_and, not_false_eq_true, and_true]

/-! ## The whole purge -/

theorem serial_purgeDocumentGraph (st : Store) :
    (purgeDocumentGraph t startedAt).serial engine.alone st = .ok (⟨⟩, { st with
      edges := (purgeScope t).foldl (fun edges r => Function.update edges r ((edges r).filter fun row =>
        ¬∃ dataId ∈ st.staleIds t startedAt, row.Names dataId)) st.edges }) := by
  rw [purgeDocumentGraph, Program.serial_forM_await, foldl_purgeEdges]

theorem serial_count (t : DataType) (st : Store) :
    (Program.await (.countRows t) : Transaction Nat).serial engine.alone st =
      .ok ((st.entities t).rows.length, st) := rfl

theorem serial_countStale (t : DataType) (startedAt : Time) (st : Store) :
    (Program.await (.countStale t startedAt) : Transaction Nat).serial engine.alone st =
      .ok ((st.staleIds t startedAt).length, st) := rfl

/-- The purge leaves the store, or runs its deletes. -/
theorem serial_purgeStaleRows (cap : Rat) (t : DataType) (startedAt : Option Time)
    (recordCount : Option Nat) (st : Store) :
    (PurgeSkips cap t startedAt recordCount st ∧
      (purgeStaleRows cap t startedAt recordCount).serial engine.alone st = .ok (⟨⟩, st)) ∨
    ∃ started, startedAt = some started ∧ ¬PurgeSkips cap t startedAt recordCount st ∧
      (purgeStaleRows cap t startedAt recordCount).serial engine.alone st =
        (purgeDocumentGraph t started >>= fun _ =>
          (Program.await (.purgeRows t started) : Transaction PUnit)).serial engine.alone st := by
  cases startedAt with
  | none => exact .inl ⟨trivial, rfl⟩
  | some started =>
    simp only [purgeStaleRows, PurgeSkips]
    by_cases hcount : recordCount = some 0
    · exact .inl ⟨.inl hcount, by rw [if_pos hcount, Program.serial_pure]⟩
    · rw [if_neg hcount, Program.serial_bind, serial_count]
      by_cases htotal : (st.entities t).rows.length = 0
      · refine .inl ⟨.inr (.inl htotal), ?_⟩
        simp only [htotal, if_true, Program.serial_pure]
      · simp only [htotal, if_false, Program.serial_bind, serial_countStale]
        by_cases hstale : (st.staleIds t started).length = 0
        · refine .inl ⟨.inr (.inr (.inl hstale)), ?_⟩
          simp only [hstale, if_true, Program.serial_pure]
        · by_cases hcap : cap ≤ ((st.staleIds t started).length : Rat) / (st.entities t).rows.length
          · refine .inl ⟨.inr (.inr (.inr hcap)), ?_⟩
            simp only [hstale, hcap, if_true, if_false, Program.serial_pure]
          · refine .inr ⟨started, rfl, ?_, ?_⟩
            · simp only [hcount, hstale, hcap, or_self, not_false_eq_true]
            · simp only [hstale, hcap, if_false, Program.serial_bind]

theorem lookup_alone_purgeRows (t : DataType) (startedAt : Time) (st : Store) (t' : DataType)
    (dataId : String) : (((engine.alone (.purgeRows t startedAt) st).2).entities t').lookup dataId =
      if t' = t then ((st.entities t').lookup dataId).filter fun row => !row.stale startedAt
      else (st.entities t').lookup dataId := by
  show ((((Statement.purgeRows t startedAt).change st ∅).apply st).entities t').lookup dataId = _
  by_cases ht : t' = t
  · subst ht
    rw [lookup_purgeRows, if_pos rfl]
    by_cases hstale : dataId ∈ st.staleIds t' startedAt
    · rw [if_pos ⟨hstale, Finset.notMem_empty _⟩]
    · rw [if_neg fun h => hstale h.1]
      cases hrow : (st.entities t').lookup dataId with
      | none => rfl
      | some row =>
        have hfresh : row.stale startedAt = false := by
          rw [← Bool.not_eq_true]
          exact fun htrue => hstale (Store.mem_staleIds.2 ⟨row, hrow, htrue⟩)
        show some row = if (!row.stale startedAt) = true then some row else none
        rw [hfresh]
        rfl
  · rw [Statement.change, lookup_entities_apply, if_neg ht, if_neg fun h => ht h.1]

theorem purged_of_deletes (rt : Runtime) (t : DataType) (startedAt : Time) (st : Store) :
    ∃ st', (purgeDocumentGraph t startedAt >>= fun _ =>
      (Program.await (.purgeRows t startedAt) : Transaction PUnit)).serial engine.alone st = .ok (⟨⟩, st') ∧
    PurgedExactly rt t startedAt st st' := by
  rw [Program.serial_bind, serial_purgeDocumentGraph]
  exact ⟨_, rfl, lookup_alone_purgeRows t startedAt _, fun r row => mem_purgedEdges st.edges _, rfl, rfl⟩

/-- For every content of the tables: a purge that is skipped, or rolled back, leaves every table
    as it was, and any other removes the stale entity rows of its type and the edges their
    documents own. -/
theorem purge_is_guarded_and_exact (rt : Runtime) (cap : Rat) (t : DataType) (startedAt : Option Time)
    (recordCount : Option Nat) (st : Store) (commits : Bool) :
    (PurgeSkips cap t startedAt recordCount st ∨ commits = false →
      (Operation.purgeStaleRows t startedAt recordCount).settle rt cap st commits = st) ∧
    (¬PurgeSkips cap t startedAt recordCount st → commits = true → ∃ started, startedAt = some started ∧
      PurgedExactly rt t started st
        ((Operation.purgeStaleRows t startedAt recordCount).settle rt cap st commits)) := by
  have hrun : ∀ {st'}, (purgeStaleRows cap t startedAt recordCount).serial engine.alone st = .ok (⟨⟩, st') →
      (Operation.purgeStaleRows t startedAt recordCount).settle rt cap st commits =
        if commits then st' else st := by
    intro st' hserial
    rw [Operation.settle, Operation.run, hserial]
    rfl
  rcases serial_purgeStaleRows cap t startedAt recordCount st with ⟨hskips, hserial⟩ | ⟨started, hstarted, hruns, hserial⟩
  · refine ⟨fun _ => ?_, fun hruns => absurd hskips hruns⟩
    rw [hrun hserial, ite_self]
  · obtain ⟨st', hdeletes, hpurged⟩ := purged_of_deletes rt t started st
    have hsettle := hrun (hserial.trans hdeletes)
    constructor
    · rintro (hskips | hrolled)
      · exact absurd hskips hruns
      · rw [hsettle, hrolled]
        rfl
    · intro _ hcommits
      refine ⟨started, hstarted, ?_⟩
      rw [hsettle, if_pos hcommits]
      exact hpurged

end Tableinator
