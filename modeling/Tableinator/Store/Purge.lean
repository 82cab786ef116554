import Tableinator.Store.WritePaths

/-! # The purge and one document

`purge_stale_rows` deletes the edges of a stale document relation by relation, each
statement on its own snapshot, and the entity row last.  Around it, the rows of a
document stay as they are until, possibly, another transaction commits a fresh
version of it (`Settled`): from then on the purge has to leave the document alone. -/

namespace Tableinator

open Effect Relational Tableinator.Graph

variable {rt : Runtime} {t : DataType} {dataId : String} {startedAt : Time}

/-- The document is stored, fresh, and coherent. -/
structure Settled (rt : Runtime) (t : DataType) (dataId : String) (startedAt : Time) (st : Store) :
    Prop where
  coherent : Coherent rt t dataId st
  fresh : ∃ row, (st.entities t).lookup dataId = some row ∧ row.stale startedAt = false

/-- The rows of a stale document a statement saw, in the relations the fresh payload
    replaces, are dead to it. -/
def Outdated (rt : Runtime) (t : DataType) (dataId : String) (startedAt : Time)
    (snapshot latest : Store) (dead : Finset Slot) : Prop :=
  dataId ∈ snapshot.staleIds t startedAt → ∀ row, (latest.entities t).lookup dataId = some row →
    ∀ r ∈ (deriveStored rt t dataId row.data).replaced, ∀ edge : EdgeRow r, edge.Names dataId →
      edge ∈ snapshot.edges r → .edge r edge ∈ dead

/-- What happens around a purge: nothing to the document, or, if `refreshed` allows it, the
    commit of a fresh version. -/
def aroundPurge (rt : Runtime) (t : DataType) (dataId : String) (startedAt : Time)
    (refreshed : Prop) : Interference Slot Store Statement where
  moves _ v v' := (documentGuard rt t dataId).Agree v v' ∨
    refreshed ∧ Settled rt t dataId startedAt v'
  spans _ snapshot latest dead :=
    ((documentGuard rt t dataId).Agree snapshot latest ∧ ∀ slot ∈ dead, ¬Concerns t dataId slot) ∨
      refreshed ∧ Settled rt t dataId startedAt latest ∧
        Outdated rt t dataId startedAt snapshot latest dead
  answers _ _ _ := True

/-- Nothing of the document has been deleted. -/
structure Untouched (rt : Runtime) (t : DataType) (dataId : String) (l : Local Slot Store) :
    Prop where
  coherent : Coherent rt t dataId l.view
  free : ∀ slot ∈ l.held, ¬Concerns t dataId slot

/-- The edges of a stale document are gone from the relations outside `rest`. -/
structure Sweeping (t : DataType) (dataId : String) (startedAt : Time) (rest : List EdgeRelation)
    (l : Local Slot Store) : Prop where
  stale : dataId ∈ l.view.staleIds t startedAt
  gone : ∀ r ∈ purgeScope t, r ∉ rest → ∀ edge : EdgeRow r, edge.Names dataId →
    edge ∉ l.view.edges r
  guard : .entity t dataId ∉ l.held

/-- Where the purge stands with the document before it deletes entity rows. -/
def Purging (rt : Runtime) (t : DataType) (dataId : String) (startedAt : Time) (refreshed : Prop)
    (rest : List EdgeRelation) (l : Local Slot Store) : Prop :=
  (refreshed ∧ Settled rt t dataId startedAt l.view) ∨
    (Untouched rt t dataId l ∧ dataId ∉ l.view.staleIds t startedAt) ∨
    Sweeping t dataId startedAt rest l

/-- The purge holds rows of the document only while it is stale, or with its entity row. -/
def HoldsStale (t : DataType) (dataId : String) (startedAt : Time) (l : Local Slot Store) : Prop :=
  ∀ slot ∈ l.held, Concerns t dataId slot →
    .entity t dataId ∈ l.held ∨ dataId ∈ l.view.staleIds t startedAt

theorem mem_staleIds_congr {a b : Store}
    (h : (documentGuard rt t dataId).Agree a b) :
    dataId ∈ a.staleIds t startedAt ↔ dataId ∈ b.staleIds t startedAt := by
  rw [Store.mem_staleIds, Store.mem_staleIds, lookup_eq_of_agree h]

theorem Settled.not_stale {st : Store} (h : Settled rt t dataId startedAt st) :
    dataId ∉ st.staleIds t startedAt := by
  obtain ⟨row, hrow, hfresh⟩ := h.fresh
  rw [Store.mem_staleIds]
  rintro ⟨row', hrow', hstale⟩
  rw [hrow] at hrow'
  cases hrow'
  rw [hfresh] at hstale
  cases hstale

theorem Settled.congr {a b : Store} (h : Settled rt t dataId startedAt a)
    (hagree : (documentGuard rt t dataId).Agree a b) : Settled rt t dataId startedAt b :=
  ⟨(documentGuard rt t dataId).congr hagree h.coherent, by
    rw [← lookup_eq_of_agree hagree]
    exact h.fresh⟩

/-! ## Deleting edges -/

section

variable {refreshed : Prop} {l : Local Slot Store} {r : EdgeRelation} {rest : List EdgeRelation}

/-- An edge of the document is deleted exactly if its document is stale on the snapshot. -/
theorem mem_purgeEdges {snapshot latest : Store} {dead : Finset Slot} {r' : EdgeRelation}
    {edge : EdgeRow r'} (hedge : edge.Names dataId) :
    edge ∈ (((Statement.purgeEdges r t startedAt).change snapshot dead).apply latest).edges r' ↔
      edge ∈ latest.edges r' ∧ ¬(r' = r ∧ edge ∈ snapshot.edges r' ∧ .edge r' edge ∉ dead ∧
        dataId ∈ snapshot.staleIds t startedAt) := by
  simp only [Statement.change, Change.apply]
  by_cases hr : r' = r
  · subst hr
    have hnamed : (snapshot.staleIds t startedAt).any (fun other => edge.Names other) = true ↔
        dataId ∈ snapshot.staleIds t startedAt := by
      rw [List.any_eq_true]
      constructor
      · rintro ⟨other, hmem, hother⟩
        rwa [EdgeRow.names_injective hedge (by simpa using hother)]
      · exact fun hmem => ⟨dataId, hmem, by simpa using hedge⟩
    rw [Function.update_self, Finset.mem_filter, Statement.doomed, decide_eq_false_iff_not, hnamed]
    simp
  · simp [hr]

theorem writes_purgeEdges {snapshot latest : Store} {dead : Finset Slot} {slot : Slot}
    (h : slot ∈ ((Statement.purgeEdges r t startedAt).change snapshot dead).writes latest)
    (hconcerns : Concerns t dataId slot) :
    dataId ∈ snapshot.staleIds t startedAt ∧ slot ≠ .entity t dataId := by
  simp only [Statement.change, Change.writes, Finset.mem_image, Finset.mem_filter,
    Statement.doomed, decide_eq_true_eq, List.any_eq_true] at h
  obtain ⟨row, ⟨_, _, _, other, hmem, hother⟩, rfl⟩ := h
  refine ⟨?_, by simp⟩
  rwa [EdgeRow.names_injective hconcerns.2 (by simpa using hother)]

/-- What a statement of the purge meets: a document refreshed meanwhile, or the document as
    the purge left it. -/
theorem aroundPurge_cases {snapshot latest : Store} {dead : Finset Slot}
    (hmoves : (aroundPurge rt t dataId startedAt refreshed).moves l.held l.view snapshot)
    (hspans : (aroundPurge rt t dataId startedAt refreshed).spans l.held snapshot latest dead) :
    (refreshed ∧ Settled rt t dataId startedAt latest ∧
        Outdated rt t dataId startedAt snapshot latest dead) ∨
      ((documentGuard rt t dataId).Agree l.view snapshot ∧
        (documentGuard rt t dataId).Agree l.view latest ∧ ∀ slot ∈ dead, ¬Concerns t dataId slot) := by
  rcases hspans with ⟨hagree, hdead⟩ | hsettled
  · rcases hmoves with hsnapshot | ⟨hrefreshed, hsettled⟩
    · exact .inr ⟨hsnapshot, hsnapshot.trans hagree, hdead⟩
    · exact .inl ⟨hrefreshed, hsettled.congr hagree, fun hstale => absurd hstale hsettled.not_stale⟩
  · exact .inl hsettled

theorem Purging.ok (h : Purging rt t dataId startedAt refreshed rest l) :
    refreshed ∨ HoldsStale t dataId startedAt l := by
  rcases h with ⟨hrefreshed, _⟩ | ⟨huntouched, _⟩ | hsweeping
  · exact .inl hrefreshed
  · exact .inr fun slot hslot hconcerns => absurd hconcerns (huntouched.free slot hslot)
  · exact .inr fun _ _ _ => .inr hsweeping.stale

theorem Settled.purgeEdges {snapshot latest : Store} {dead : Finset Slot} (r : EdgeRelation)
    (h : Settled rt t dataId startedAt latest)
    (houtdated : Outdated rt t dataId startedAt snapshot latest dead) :
    Settled rt t dataId startedAt
      (((Statement.purgeEdges r t startedAt).change snapshot dead).apply latest) := by
  refine ⟨⟨fun row hrow r' hr' edge hedge => ?_, fun hnone => ?_⟩, h.fresh⟩
  · rw [mem_purgeEdges hedge, ← h.coherent.stored row hrow r' hr' edge hedge]
    refine ⟨And.left, fun hlive => ⟨hlive, ?_⟩⟩
    rintro ⟨rfl, hsnap, halive, hstale⟩
    exact halive (houtdated hstale row hrow r' hr' edge hedge hsnap)
  · obtain ⟨row, hrow, _⟩ := h.fresh
    exact absurd (hrow.symm.trans hnone) (by simp)

theorem purging_purgeEdges (h : Purging rt t dataId startedAt refreshed (r :: rest) l) :
    Program.wlp (LocalStep engine (aroundPurge rt t dataId startedAt refreshed))
      (fun l => refreshed ∨ HoldsStale t dataId startedAt l)
      (Program.await (.purgeEdges r t startedAt) : Transaction PUnit)
      (fun l _ => Purging rt t dataId startedAt refreshed rest l) l := by
  rintro reply l' ⟨snapshot, latest, dead, hmoves, hspans, _, _, rfl⟩
  suffices hnext : Purging rt t dataId startedAt refreshed rest
      ⟨((Statement.purgeEdges r t startedAt).change snapshot dead).apply latest,
        l.held ∪ ((Statement.purgeEdges r t startedAt).change snapshot dead).writes latest⟩ from
    ⟨hnext.ok, hnext⟩
  rcases aroundPurge_cases hmoves hspans with ⟨hrefreshed, hsettled, houtdated⟩ |
    ⟨hsnapshot, hlatest, hdead⟩
  · exact .inl ⟨hrefreshed, hsettled.purgeEdges r houtdated⟩
  · rcases h with ⟨hrefreshed, hsettled⟩ | ⟨huntouched, hfresh⟩ | hsweeping
    · refine .inl ⟨hrefreshed, (hsettled.congr hlatest).purgeEdges r fun hstale => ?_⟩
      exact absurd hstale (hsettled.congr hsnapshot).not_stale
    · have hspared : dataId ∉ snapshot.staleIds t startedAt := by
        rwa [← mem_staleIds_congr hsnapshot]
      refine .inr (.inl ⟨⟨?_, fun slot hslot hconcerns => ?_⟩, ?_⟩)
      · refine huntouched.coherent.of_data ?_ fun r' hr' edge hedge => ?_
        · rw [lookup_eq_of_agree hlatest]
          rfl
        · rw [mem_purgeEdges hedge, mem_edges_iff_of_agree hlatest hr' hedge]
          simp [hspared]
      · rcases Finset.mem_union.1 hslot with hheld | hwrites
        · exact huntouched.free slot hheld hconcerns
        · exact hspared (writes_purgeEdges hwrites hconcerns).1
      · exact fun hstale => hfresh ((mem_staleIds_congr hlatest).2 hstale)
    · refine .inr (.inr ⟨(mem_staleIds_congr hlatest).1 hsweeping.stale, ?_, fun hslot => ?_⟩)
      · intro r' hr' hrest edge hedge hlive
        rw [mem_purgeEdges hedge, ← mem_edges_iff_of_agree hlatest hr' hedge] at hlive
        by_cases hr : r' = r
        · refine hlive.2 ⟨hr, ?_, fun hslot => hdead _ hslot ⟨hr', hedge⟩, ?_⟩
          · rw [← mem_edges_iff_of_agree hsnapshot hr' hedge]
            exact hlive.1
          · exact (mem_staleIds_congr hsnapshot).1 hsweeping.stale
        · exact hsweeping.gone r' hr' (by simp [hr, hrest]) edge hedge hlive.1
      · rcases Finset.mem_union.1 hslot with hheld | hwrites
        · exact hsweeping.guard hheld
        · exact (writes_purgeEdges hwrites ⟨rfl, rfl⟩).2 rfl

/-! ## Deleting entity rows -/

/-- The outcome of a purge for the document. -/
def Purged (rt : Runtime) (t : DataType) (dataId : String) (startedAt : Time) (refreshed : Prop)
    (l : Local Slot Store) : Prop :=
  (refreshed ∧ Settled rt t dataId startedAt l.view) ∨ Kept rt t dataId l

theorem lookup_purgeRows {snapshot latest : Store} {dead : Finset Slot} :
    ((((Statement.purgeRows t startedAt).change snapshot dead).apply latest).entities t).lookup dataId =
      if dataId ∈ snapshot.staleIds t startedAt ∧ .entity t dataId ∉ dead then
        ((latest.entities t).lookup dataId).filter fun row => !row.stale startedAt
      else (latest.entities t).lookup dataId := by
  rw [Statement.change, lookup_entities_apply]
  simp only [Statement.updated, List.mem_filter, true_and, decide_eq_true_eq]
  by_cases hstale : dataId ∈ snapshot.staleIds t startedAt
  · obtain ⟨row, hrow, _⟩ := Store.mem_staleIds.1 hstale
    simp [hstale, hrow]
  · simp [hstale]

theorem writes_purgeRows {snapshot latest : Store} {dead : Finset Slot} {slot : Slot}
    (h : slot ∈ ((Statement.purgeRows t startedAt).change snapshot dead).writes latest)
    (hconcerns : Concerns t dataId slot) :
    slot = .entity t dataId ∧ dataId ∈ snapshot.staleIds t startedAt := by
  simp only [Statement.change, Change.writes, List.mem_toFinset, List.mem_map, List.mem_filter,
    Statement.updated] at h
  obtain ⟨other, ⟨⟨hmem, _⟩, _⟩, rfl⟩ := h
  obtain ⟨-, rfl⟩ := hconcerns
  exact ⟨rfl, hmem⟩

theorem purged_purgeRows (h : Purging rt t dataId startedAt refreshed [] l) :
    Program.wlp (LocalStep engine (aroundPurge rt t dataId startedAt refreshed))
      (fun l => refreshed ∨ HoldsStale t dataId startedAt l)
      (Program.await (.purgeRows t startedAt) : Transaction PUnit)
      (fun l _ => Purged rt t dataId startedAt refreshed l) l := by
  rintro reply l' ⟨snapshot, latest, dead, hmoves, hspans, _, _, rfl⟩
  have hsettles : refreshed → Settled rt t dataId startedAt latest → Purged rt t dataId startedAt
      refreshed ⟨((Statement.purgeRows t startedAt).change snapshot dead).apply latest,
        l.held ∪ ((Statement.purgeRows t startedAt).change snapshot dead).writes latest⟩ := by
    intro hrefreshed hsettled
    obtain ⟨row, hrow, hfresh⟩ := hsettled.fresh
    have hkept : ((((Statement.purgeRows t startedAt).change snapshot dead).apply latest).entities
        t).lookup dataId = some row := by
      rw [lookup_purgeRows, hrow]
      simp [hfresh]
    refine .inl ⟨hrefreshed, hsettled.coherent.of_data ?_ fun _ _ _ _ => Iff.rfl, row, hkept, hfresh⟩
    rw [hkept, hrow]
  suffices hnext : (refreshed ∨ HoldsStale t dataId startedAt
      ⟨((Statement.purgeRows t startedAt).change snapshot dead).apply latest,
        l.held ∪ ((Statement.purgeRows t startedAt).change snapshot dead).writes latest⟩) ∧
      Purged rt t dataId startedAt refreshed
        ⟨((Statement.purgeRows t startedAt).change snapshot dead).apply latest,
          l.held ∪ ((Statement.purgeRows t startedAt).change snapshot dead).writes latest⟩ from hnext
  rcases aroundPurge_cases hmoves hspans with ⟨hrefreshed, hsettled, _⟩ |
    ⟨hsnapshot, hlatest, hdead⟩
  · -- a fresh version came in between, and its row is not stale
    exact ⟨.inl hrefreshed, hsettles hrefreshed hsettled⟩
  · rcases h with ⟨hrefreshed, hsettled⟩ | ⟨huntouched, hfresh⟩ | hsweeping
    · exact ⟨.inl hrefreshed, hsettles hrefreshed (hsettled.congr hlatest)⟩
    · -- nothing was done to the document, and its row is not stale
      have hspared : dataId ∉ snapshot.staleIds t startedAt := by
        rwa [← mem_staleIds_congr hsnapshot]
      have hfree : ∀ slot ∈ l.held ∪
          ((Statement.purgeRows t startedAt).change snapshot dead).writes latest,
          ¬Concerns t dataId slot := by
        intro slot hslot hconcerns
        rcases Finset.mem_union.1 hslot with hheld | hwrites
        · exact huntouched.free slot hheld hconcerns
        · exact hspared (writes_purgeRows hwrites hconcerns).2
      refine ⟨.inr fun slot hslot hconcerns => absurd hconcerns (hfree slot hslot), .inr ⟨?_, ?_⟩⟩
      · exact fun slot hslot hconcerns => absurd hconcerns (hfree slot hslot)
      · refine huntouched.coherent.of_data ?_ fun r' hr' edge hedge =>
          (mem_edges_iff_of_agree hlatest hr' hedge).symm
        rw [lookup_purgeRows, lookup_eq_of_agree hlatest]
        simp [hspared]
    · -- the document is stale, so its entity row goes, after all of its edges
      have hstale : dataId ∈ snapshot.staleIds t startedAt :=
        (mem_staleIds_congr hsnapshot).1 hsweeping.stale
      have hlive : .entity t dataId ∉ dead := fun hslot => hdead _ hslot ⟨rfl, rfl⟩
      obtain ⟨row, hrow, hrowStale⟩ :=
        Store.mem_staleIds.1 ((mem_staleIds_congr hlatest).1 hsweeping.stale)
      have hguard : Slot.entity t dataId ∈ l.held ∪
          ((Statement.purgeRows t startedAt).change snapshot dead).writes latest := by
        refine Finset.mem_union_right _ ?_
        obtain ⟨seen, hseen, _⟩ := Store.mem_staleIds.1 hstale
        simp [Statement.change, Change.writes, Statement.updated, hstale, hlive, hrow, hseen]
      refine ⟨.inr fun _ _ _ => .inl hguard, .inr ⟨disciplined_of_guard hguard, ?_, ?_⟩⟩
      · intro row' hrow'
        rw [lookup_purgeRows, if_pos ⟨hstale, hlive⟩, hrow] at hrow'
        obtain ⟨rfl, hfresh⟩ : row = row' ∧ row'.stale startedAt = false := by simpa using hrow'
        rw [hrowStale] at hfresh
        cases hfresh
      · intro _ r' hr' edge hedge hlive
        exact hsweeping.gone r' hr' (by simp) edge hedge
          ((mem_edges_iff_of_agree hlatest hr' hedge).2 hlive)

/-! ## The whole purge -/

/-- Before the first delete: a fresh version of the document, or nothing done to it. -/
def Waiting (rt : Runtime) (t : DataType) (dataId : String) (startedAt : Time) (refreshed : Prop)
    (l : Local Slot Store) : Prop :=
  (refreshed ∧ Settled rt t dataId startedAt l.view) ∨ Untouched rt t dataId l

theorem waiting_read {ρ : Type} {op : Statement ρ} (hkeep : ∀ snapshot dead, op.change snapshot dead = .keep)
    (h : Waiting rt t dataId startedAt refreshed l) :
    Program.wlp (LocalStep engine (aroundPurge rt t dataId startedAt refreshed))
      (fun l => refreshed ∨ HoldsStale t dataId startedAt l)
      (Program.await op : Transaction ρ)
      (fun l _ => Waiting rt t dataId startedAt refreshed l) l := by
  rintro reply l' ⟨snapshot, latest, dead, hmoves, hspans, _, _, rfl⟩
  suffices hnext : Waiting rt t dataId startedAt refreshed ⟨latest, l.held⟩ by
    have hstep : engine.apply op snapshot dead latest = latest ∧
        engine.writes op snapshot dead latest = ∅ := by
      simp [engine, hkeep, Change.apply, Change.writes]
    rw [hstep.1, hstep.2, Finset.union_empty]
    refine ⟨?_, hnext⟩
    rcases hnext with ⟨hrefreshed, _⟩ | huntouched
    · exact .inl hrefreshed
    · exact .inr fun slot hslot hconcerns => absurd hconcerns (huntouched.free slot hslot)
  rcases aroundPurge_cases hmoves hspans with ⟨hrefreshed, hsettled, _⟩ | ⟨_, hlatest, _⟩
  · exact .inl ⟨hrefreshed, hsettled⟩
  · rcases h with ⟨hrefreshed, hsettled⟩ | huntouched
    · exact .inl ⟨hrefreshed, hsettled.congr hlatest⟩
    · exact .inr ⟨(documentGuard rt t dataId).congr hlatest huntouched.coherent, huntouched.free⟩

theorem Waiting.purged (h : Waiting rt t dataId startedAt refreshed l) :
    Purged rt t dataId startedAt refreshed l :=
  h.imp id fun huntouched =>
    ⟨fun slot hslot hconcerns => absurd hconcerns (huntouched.free slot hslot), huntouched.coherent⟩

theorem Waiting.purging (h : Waiting rt t dataId startedAt refreshed l) :
    Purging rt t dataId startedAt refreshed (purgeScope t) l := by
  rcases h with hsettled | huntouched
  · exact .inl hsettled
  · by_cases hstale : dataId ∈ l.view.staleIds t startedAt
    · exact .inr (.inr ⟨hstale, fun r hr hrest => absurd hr hrest,
        fun hguard => huntouched.free _ hguard ⟨rfl, rfl⟩⟩)
    · exact .inr (.inl ⟨huntouched, hstale⟩)

/-- `purge_stale_rows` removes a stale document with all of its edges, and leaves every
    other one as it is. -/
theorem purgeStaleRows_ensures {cap : Rat} {recordCount : Option Nat}
    (h : Waiting rt t dataId startedAt refreshed l) :
    Program.wlp (LocalStep engine (aroundPurge rt t dataId startedAt refreshed))
      (fun l => refreshed ∨ HoldsStale t dataId startedAt l)
      (purgeStaleRows cap t (some startedAt) recordCount)
      (fun l _ => Purged rt t dataId startedAt refreshed l) l := by
  unfold purgeStaleRows
  dsimp only
  split
  · exact h.purged
  · simp only [Program.wlp_bind]
    refine Program.wlp_mono (waiting_read (fun _ _ => rfl) h) fun l total h => ?_
    split
    · exact h.purged
    · simp only [Program.wlp_bind]
      refine Program.wlp_mono (waiting_read (fun _ _ => rfl) h) fun l stale h => ?_
      split
      · exact h.purged
      · split
        · exact h.purged
        · simp only [Program.wlp_bind]
          exact Program.wlp_mono (Program.wlp_forM (fun rest l =>
            Purging rt t dataId startedAt refreshed rest l) h.purging fun r rest l h =>
              purging_purgeEdges h) fun l _ h => purged_purgeRows h

end

end Tableinator
