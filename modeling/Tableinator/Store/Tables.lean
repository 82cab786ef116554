import Mathlib.Data.Finset.Image
import Mathlib.Data.String.Basic
import Tableinator.Graph.Relations
import Tableinator.Relational.RowSet
import Tableinator.Relational.Table
import Tableinator.Runtime

/-! # The loader's tables

The four entity tables, the graph relations and the identifier aliases, as one
store; the rows of it a transaction can hold (`Slot`); and the changes a statement
makes to it (`Change`).  A change is planned on the statement's snapshot and applied
to the rows as they are when it runs. -/

namespace Tableinator

open Relational Tableinator.Graph

/-- A row of an entity table.  Only `releases` has a `media` column. -/
structure EntityRow where
  hash : String
  data : Json
  media : Option Json
  gmItemId : Option NativeId
  updatedAt : Time

structure Store where
  entities : DataType → Table String EntityRow
  vertices : (v : VertexRelation) → Finset (VertexRow v)
  edges : (r : EdgeRelation) → Finset (EdgeRow r)
  aliases : AliasRef → Option NativeId

inductive Slot where
  | entity (t : DataType) (dataId : String)
  | vertex (v : VertexRelation) (row : VertexRow v)
  | edge (r : EdgeRelation) (row : EdgeRow r)
  | identifier (ref : AliasRef)
  deriving DecidableEq

/-- What a slot holds: a vertex or an edge is either there or not. -/
def Slot.Row : Slot → Type
  | .entity _ _ => EntityRow
  | .vertex _ _ => Unit
  | .edge _ _ => Unit
  | .identifier _ => NativeId

namespace Store

def empty : Store := ⟨fun _ => .empty, fun _ => ∅, fun _ => ∅, fun _ => none⟩

def get (st : Store) : (slot : Slot) → Option slot.Row
  | .entity t dataId => (st.entities t).lookup dataId
  | .vertex v row => if row ∈ st.vertices v then some () else none
  | .edge r row => if row ∈ st.edges r then some () else none
  | .identifier ref => st.aliases ref

/-- The rows of `own` at the held slots, of `base` elsewhere. -/
def overlay (own base : Store) (held : Finset Slot) : Store where
  entities t := (own.entities t).overlay (base.entities t) fun dataId => .entity t dataId ∈ held
  vertices v := (own.vertices v).filter (fun row => .vertex v row ∈ held) ∪
    (base.vertices v).filter fun row => .vertex v row ∉ held
  edges r := (own.edges r).filter (fun row => .edge r row ∈ held) ∪
    (base.edges r).filter fun row => .edge r row ∉ held
  aliases ref := if .identifier ref ∈ held then own.aliases ref else base.aliases ref

theorem get_overlay (own base : Store) (held : Finset Slot) (slot : Slot) :
    (overlay own base held).get slot = if slot ∈ held then own.get slot else base.get slot := by
  cases slot with
  | entity t dataId =>
    show ((own.entities t).overlay (base.entities t) _).lookup dataId = _
    by_cases h : Slot.entity t dataId ∈ held
    · rw [Table.lookup_overlay, if_pos (by simpa using h), if_pos h]
      rfl
    · rw [Table.lookup_overlay, if_neg (by simpa using h), if_neg h]
      rfl
  | vertex v row => by_cases h : Slot.vertex v row ∈ held <;> simp [get, overlay, h]
  | edge r row => by_cases h : Slot.edge r row ∈ held <;> simp [get, overlay, h]
  | identifier ref => rfl

theorem get_edge_eq_iff {a b : Store} {r : EdgeRelation} {row : EdgeRow r} :
    a.get (.edge r row) = b.get (.edge r row) ↔ (row ∈ a.edges r ↔ row ∈ b.edges r) := by
  simp only [get]
  by_cases ha : row ∈ a.edges r <;> by_cases hb : row ∈ b.edges r <;> simp [ha, hb]

/-- A store is what it holds at each slot. -/
theorem ext_get {a b : Store} (h : ∀ slot, a.get slot = b.get slot) : a = b := by
  have hentities : a.entities = b.entities := by
    funext t
    exact Table.ext fun dataId => h (.entity t dataId)
  have hvertices : a.vertices = b.vertices := by
    funext v
    ext row
    have hrow := h (.vertex v row)
    by_cases ha : row ∈ a.vertices v <;> by_cases hb : row ∈ b.vertices v <;>
      simp [get, ha, hb] at hrow ⊢
  have hedges : a.edges = b.edges := by
    funext r
    ext row
    exact get_edge_eq_iff.1 (h (.edge r row))
  have haliases : a.aliases = b.aliases := funext fun ref => h (.identifier ref)
  cases a
  cases b
  cases hentities
  cases hvertices
  cases hedges
  cases haliases
  rfl

end Store

/-! ## Changes -/

/-- The effect of one statement on the rows as they are. -/
inductive Change where
  | keep
  /-- Rewrite, insert or delete the entity rows of these ids. -/
  | entities (t : DataType) (ids : List String) (f : String → Option EntityRow → Option EntityRow)
  /-- `INSERT … ON CONFLICT DO NOTHING`. -/
  | vertices (v : VertexRelation) (rows : List (VertexRow v))
  | edges (r : EdgeRelation) (rows : List (EdgeRow r))
  /-- `DELETE` of edge rows. -/
  | prune (r : EdgeRelation) (p : EdgeRow r → Bool)
  /-- `attach_aliases`: insert the refs that are absent. -/
  | aliases (targets : List (AliasRef × NativeId))

namespace Change

def apply (st : Store) : Change → Store
  | .keep => st
  | .entities t ids f =>
    { st with entities := Function.update st.entities t ((st.entities t).alter ids f) }
  | .vertices v rows =>
    { st with vertices := Function.update st.vertices v (insertAll VertexRow.key (st.vertices v) rows) }
  | .edges r rows =>
    { st with edges := Function.update st.edges r (insertAll EdgeRow.key (st.edges r) rows) }
  | .prune r p =>
    { st with edges := Function.update st.edges r ((st.edges r).filter fun row => p row = false) }
  | .aliases targets =>
    { st with aliases := fun ref => (st.aliases ref).or (targets.lookup ref) }

/-- The slots the change waits for while another transaction holds them. -/
def waits : Change → Slot → Bool
  | .entities t ids _, .entity t' dataId => t = t' ∧ dataId ∈ ids
  | .vertices v rows, .vertex v' row =>
    v = v' ∧ row.cells.head? ∈ rows.map VertexRow.key
  | .edges r rows, .edge r' row => ∃ h : r' = r, (h ▸ row).key ∈ rows.map EdgeRow.key
  | .prune r p, .edge r' row => ∃ h : r' = r, p (h ▸ row) = true
  | .aliases targets, .identifier ref => ref ∈ targets.map Prod.fst
  | _, _ => false

/-- The slots the change writes. -/
def writes (st : Store) : Change → Finset Slot
  | .keep => ∅
  | .entities t ids f => (ids.filter fun dataId =>
      ((st.entities t).lookup dataId).isSome || (f dataId ((st.entities t).lookup dataId)).isSome)
      |>.map (Slot.entity t) |>.toFinset
  | .vertices v rows => (rows.filter fun row =>
      row ∈ insertAll VertexRow.key (st.vertices v) rows ∧ row ∉ st.vertices v)
      |>.map (Slot.vertex v) |>.toFinset
  | .edges r rows => (rows.filter fun row =>
      row ∈ insertAll EdgeRow.key (st.edges r) rows ∧ row ∉ st.edges r)
      |>.map (Slot.edge r) |>.toFinset
  | .prune r p => ((st.edges r).filter fun row => p row = true).image (Slot.edge r)
  | .aliases targets => (targets.filter fun target => (st.aliases target.1).isNone)
      |>.map (fun target => Slot.identifier target.1) |>.toFinset

theorem waits_of_writes {change : Change} {st : Store} {slot : Slot}
    (h : slot ∈ change.writes st) : change.waits slot = true := by
  cases change with
  | keep => simp [writes] at h
  | entities t ids f =>
    simp only [writes, List.mem_toFinset, List.mem_map, List.mem_filter] at h
    obtain ⟨dataId, ⟨hmem, _⟩, rfl⟩ := h
    simp [waits, hmem]
  | vertices v rows =>
    simp only [writes, List.mem_toFinset, List.mem_map, List.mem_filter] at h
    obtain ⟨row, ⟨hmem, _⟩, rfl⟩ := h
    simp only [waits, true_and, decide_eq_true_eq, List.mem_map]
    exact ⟨row, hmem, rfl⟩
  | edges r rows =>
    simp only [writes, List.mem_toFinset, List.mem_map, List.mem_filter] at h
    obtain ⟨row, ⟨hmem, _⟩, rfl⟩ := h
    exact decide_eq_true ⟨rfl, List.mem_map_of_mem hmem⟩
  | prune r p =>
    simp only [writes, Finset.mem_image, Finset.mem_filter] at h
    obtain ⟨row, ⟨_, hp⟩, rfl⟩ := h
    exact decide_eq_true ⟨rfl, hp⟩
  | aliases targets =>
    simp only [writes, List.mem_toFinset, List.mem_map, List.mem_filter] at h
    obtain ⟨target, ⟨hmem, _⟩, rfl⟩ := h
    simp only [waits, decide_eq_true_eq, List.mem_map]
    exact ⟨target, hmem, rfl⟩

/-! ## What a change leaves alone -/

/-- Every row outside `writes` is as it was. -/
theorem get_apply {change : Change} {st : Store} {slot : Slot} (h : slot ∉ change.writes st) :
    (change.apply st).get slot = st.get slot := by
  cases change with
  | keep => rfl
  | entities t ids f =>
    cases slot with
    | entity t' dataId =>
      by_cases ht : t' = t
      · subst ht
        simp only [Store.get, apply, Function.update_self, Table.lookup_alter]
        split
        · next hmem =>
          simp only [writes, List.mem_toFinset, List.mem_map, List.mem_filter, not_exists] at h
          -- an id the update lists is written unless it has no row before or after
          have hnone := fun hwrites => h dataId ⟨⟨hmem, hwrites⟩, rfl⟩
          rw [Bool.or_eq_true, imp_false, not_or, Option.not_isSome_iff_eq_none,
            Option.not_isSome_iff_eq_none] at hnone
          rw [hnone.2, hnone.1]
        · rfl
      · show (Function.update st.entities t _ t').lookup dataId = (st.entities t').lookup dataId
        rw [Function.update_of_ne ht]
    | _ => rfl
  | vertices v rows =>
    cases slot with
    | vertex v' row =>
      by_cases hv : v' = v
      · subst hv
        have hiff : row ∈ insertAll VertexRow.key (st.vertices v') rows ↔ row ∈ st.vertices v' := by
          refine mem_insertAll_iff_of_not_inserted fun hinserted => h ?_
          simp only [writes, List.mem_toFinset, List.mem_map, List.mem_filter, decide_eq_true_eq]
          exact ⟨row, hinserted, rfl⟩
        simp only [Store.get, apply, Function.update_self, hiff]
      · simp [Store.get, apply, Function.update_of_ne hv]
    | _ => rfl
  | edges r rows =>
    cases slot with
    | edge r' row =>
      by_cases hr : r' = r
      · subst hr
        have hiff : row ∈ insertAll EdgeRow.key (st.edges r') rows ↔ row ∈ st.edges r' := by
          refine mem_insertAll_iff_of_not_inserted fun hinserted => h ?_
          simp only [writes, List.mem_toFinset, List.mem_map, List.mem_filter, decide_eq_true_eq]
          exact ⟨row, hinserted, rfl⟩
        simp only [Store.get, apply, Function.update_self, hiff]
      · simp [Store.get, apply, Function.update_of_ne hr]
    | _ => rfl
  | prune r p =>
    cases slot with
    | edge r' row =>
      by_cases hr : r' = r
      · subst hr
        have hkept : row ∈ st.edges r' → p row = false := by
          intro hmem
          cases hp : p row with
          | false => rfl
          | true =>
            exact absurd (Finset.mem_image.2 ⟨row, Finset.mem_filter.2 ⟨hmem, hp⟩, rfl⟩) h
        have hiff : row ∈ (st.edges r').filter (fun row => p row = false) ↔ row ∈ st.edges r' := by
          rw [Finset.mem_filter]
          exact ⟨And.left, fun hmem => ⟨hmem, hkept hmem⟩⟩
        simp only [Store.get, apply, Function.update_self, hiff]
      · simp [Store.get, apply, Function.update_of_ne hr]
    | _ => rfl
  | aliases targets =>
    cases slot with
    | identifier ref =>
      show (st.aliases ref).or (targets.lookup ref) = st.aliases ref
      cases hst : st.aliases ref with
      | some nativeId => rfl
      | none =>
        -- an alias that is free is one the insert would have written
        rw [Option.none_or, List.lookup_eq_none_iff]
        intro target hmem
        have hne : ref ≠ target.1 := by
          rintro rfl
          refine h ?_
          simp only [writes, List.mem_toFinset, List.mem_map, List.mem_filter]
          exact ⟨target, ⟨hmem, by simp [hst]⟩, rfl⟩
        simpa using hne
    | _ => rfl

/-- A row of an edge relation was there before or is one the change inserts. -/
theorem mem_edges_apply {change : Change} {st : Store} {r : EdgeRelation} {edge : EdgeRow r}
    (h : edge ∈ (change.apply st).edges r) :
    edge ∈ st.edges r ∨ ∃ rows, change = .edges r rows ∧ edge ∈ rows := by
  cases change with
  | edges r' rows =>
    by_cases hr : r = r'
    · subst hr
      simp only [apply, Function.update_self] at h
      exact (mem_of_mem_insertAll h).imp_right fun hrow => ⟨rows, rfl, hrow⟩
    · simp only [apply, Function.update_of_ne hr] at h
      exact .inl h
  | prune r' p =>
    by_cases hr : r = r'
    · subst hr
      simp only [apply, Function.update_self, Finset.mem_filter] at h
      exact .inl h.1
    · simp only [apply, Function.update_of_ne hr] at h
      exact .inl h
  | _ => exact .inl h

/-- An edge row a change writes was there before or is there after. -/
theorem mem_of_writes {change : Change} {st : Store} {r : EdgeRelation} {edge : EdgeRow r}
    (h : .edge r edge ∈ change.writes st) :
    edge ∈ st.edges r ∨ edge ∈ (change.apply st).edges r := by
  cases change with
  | edges r' rows =>
    simp only [writes, List.mem_toFinset, List.mem_map, List.mem_filter, decide_eq_true_eq] at h
    obtain ⟨row, ⟨_, hinserted, _⟩, heq⟩ := h
    cases heq
    right
    simpa [apply] using hinserted
  | prune r' p =>
    simp only [writes, Finset.mem_image, Finset.mem_filter] at h
    obtain ⟨row, ⟨hrow, _⟩, heq⟩ := h
    cases heq
    exact .inl hrow
  | _ => simp [writes] at h

end Change

end Tableinator
