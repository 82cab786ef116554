import Mathlib.Data.List.Dedup
import Mathlib.Data.List.Perm.Basic
import Mathlib.Data.Set.Card
import Tableinator.Relational.Transaction

/-! # Queries

The parts of a `SELECT` over tables as lists of rows: joins, groups and the aggregates over
a group.  An aggregate may raise, and the query raises with it. -/

namespace Relational

universe u v w x

variable {α : Type u} {β : Type x} {κ γ : Type v} {ε : Type w}

/-- `JOIN … ON`. -/
def join (on : α → β → Bool) (left : List α) (right : List β) : List (α × β) :=
  left.flatMap fun a => (right.filter (on a)).map fun b => (a, b)

/-- `LEFT JOIN … ON`. -/
def leftJoin (on : α → β → Bool) (left : List α) (right : List β) : List (α × Option β) :=
  left.flatMap fun a =>
    match right.filter (on a) with
    | [] => [(a, none)]
    | found => found.map fun b => (a, some b)

/-- `count(DISTINCT …)` of a column without `NULL`. -/
def countDistinct [DecidableEq α] (values : List α) : ℕ := values.dedup.length

theorem mem_join {on : α → β → Bool} {left : List α} {right : List β} {a : α} {b : β} :
    (a, b) ∈ join on left right ↔ a ∈ left ∧ b ∈ right ∧ on a b = true := by
  simp [join]

/-! ## Queries that raise -/

section

variable {f : α → Except ε γ}

theorem mapM_of_ok {g : α → γ} {rows : List α} (h : ∀ row ∈ rows, f row = .ok (g row)) :
    rows.mapM f = .ok (rows.map g) := by
  induction rows with
  | nil => rfl
  | cons row rows ih =>
    have hrest := ih fun other hother => h other (List.mem_cons_of_mem _ hother)
    rw [List.mapM_cons, h row List.mem_cons_self, hrest]
    rfl

/-- A query over rows raises where one of them does. -/
theorem mapM_isOk {rows : List α} :
    (rows.mapM f).isOk = true ↔ ∀ row ∈ rows, (f row).isOk = true := by
  induction rows with
  | nil => simp [pure, Except.pure, Except.isOk, Except.toBool]
  | cons row rows ih =>
    rw [List.mapM_cons, List.forall_mem_cons, ← ih]
    cases f row with
    | error e => simp [bind, Except.bind, Except.isOk, Except.toBool]
    | ok value =>
      cases rows.mapM f with
      | error e => simp [bind, Except.bind, Except.isOk, Except.toBool]
      | ok values => simp [bind, Except.bind, pure, Except.pure, Except.isOk, Except.toBool]

theorem map_isOk {x : Except ε α} {g : α → γ} : (x.map g).isOk = x.isOk := by
  cases x <;> rfl

end

/-! ## Groups -/

/-- `GROUP BY key`: one group for each value the key takes. -/
def groupBy [DecidableEq κ] (key : α → κ) (rows : List α) : List (κ × List α) :=
  (rows.map key).dedup.map fun k => (k, rows.filter fun row => key row = k)

/-- One row for each group: its key and the aggregate of its rows. -/
def aggregate (agg : List α → Except ε γ) (groups : List (κ × List α)) : Except ε (List (κ × γ)) :=
  groups.mapM fun group => (agg group.2).map fun value => (group.1, value)

section

variable {key : α → κ} {rows : List α} {agg : List α → Except ε γ}

theorem aggregate_of_ok {value : List α → γ} {groups : List (κ × List α)}
    (h : ∀ group ∈ groups, agg group.2 = .ok (value group.2)) :
    aggregate agg groups = .ok (groups.map fun group => (group.1, value group.2)) := by
  apply mapM_of_ok
  intro group hgroup
  rw [h group hgroup]
  rfl

theorem aggregate_isOk {groups : List (κ × List α)} :
    (aggregate agg groups).isOk = true ↔ ∀ group ∈ groups, (agg group.2).isOk = true := by
  rw [aggregate, mapM_isOk]
  simp only [map_isOk]

variable [DecidableEq κ]

theorem mem_groupBy {group : κ × List α} : group ∈ groupBy key rows ↔
    group.1 ∈ rows.map key ∧ group.2 = rows.filter fun row => key row = group.1 := by
  obtain ⟨k, found⟩ := group
  simp only [groupBy, List.mem_map, List.mem_dedup, Prod.mk.injEq]
  constructor
  · intro h
    obtain ⟨k', ⟨row, hrow, hkey⟩, rfl, rfl⟩ := h
    exact ⟨⟨row, hrow, hkey⟩, rfl⟩
  · intro h
    exact ⟨k, h.1, rfl, h.2.symm⟩

-- A key has one group, or none where no row takes it.
theorem filter_groupBy (value : List α → γ) (k : κ) :
    (((groupBy key rows).map fun group => (group.1, value group.2)).filter fun row => row.1 = k) =
      if rows.filter (fun row => key row = k) = [] then []
      else [(k, value (rows.filter fun row => key row = k))] := by
  have hgroups : (groupBy key rows).filter (fun group => group.1 = k) =
      ((rows.map key).dedup.filter fun k' => k' = k).map fun k =>
        (k, rows.filter fun row => key row = k) := by
    rw [groupBy, List.filter_map]
    rfl
  have hempty : rows.filter (fun row => key row = k) = [] ↔ k ∉ (rows.map key).dedup := by
    simp [List.filter_eq_nil_iff]
  rw [List.filter_map]
  show ((groupBy key rows).filter fun group => group.1 = k).map _ = _
  rw [hgroups, List.filter_eq]
  simp only [hempty]
  by_cases hk : k ∈ (rows.map key).dedup
  · rw [List.count_eq_one_of_mem (List.nodup_dedup _) hk]
    simp [hk]
  · rw [List.count_eq_zero_of_not_mem hk]
    simp [hk]

/-- Joined with an aggregate by group, each row meets the aggregate of its own group, once, or
    nothing where that group is empty. -/
theorem leftJoin_groupBy {left : List β} (value : List α → γ) (on : β → κ) :
    leftJoin (fun b row => row.1 = on b) left
        ((groupBy key rows).map fun group => (group.1, value group.2)) =
      left.map fun b => (b, if rows.filter (fun row => key row = on b) = [] then none
        else some (on b, value (rows.filter fun row => key row = on b))) := by
  refine Eq.trans ?_ List.map_eq_flatMap.symm
  apply List.flatMap_congr
  intro b _
  rw [filter_groupBy]
  by_cases hempty : rows.filter (fun row => key row = on b) = []
  · simp only [hempty, if_true]
  · simp only [hempty, if_false, List.map_cons, List.map_nil]

end

/-! ## Rows in another order -/

section

variable {left left' : List α} {right right' : List β} {on : α → β → Bool} {rows rows' : List α}

/-- A join has the rows of its tables, in whatever order these come. -/
theorem join_perm (hleft : left.Perm left') (hright : right.Perm right') :
    (join on left right).Perm (join on left' right') := by
  have hrows : ∀ a, ((right.filter (on a)).map fun b => (a, b)).Perm
      ((right'.filter (on a)).map fun b => (a, b)) := fun a => (hright.filter (on a)).map _
  exact hleft.flatMap fun a _ => hrows a

theorem countDistinct_perm [DecidableEq α] (hrows : rows.Perm rows') :
    countDistinct rows = countDistinct rows' := hrows.dedup.length_eq

variable [DecidableEq κ] {key : α → κ} {value : List α → γ}

theorem mem_map_groupBy {k : κ} {v : γ} :
    (k, v) ∈ (groupBy key rows).map (fun group => (group.1, value group.2)) ↔
      (∃ row ∈ rows, key row = k) ∧ v = value (rows.filter fun row => key row = k) := by
  simp only [groupBy, List.map_map, List.mem_map, List.mem_dedup, Function.comp_apply, Prod.mk.injEq]
  constructor
  · intro h
    obtain ⟨k', hkey, rfl, rfl⟩ := h
    exact ⟨hkey, rfl⟩
  · intro h
    exact ⟨k, h.1, rfl, h.2.symm⟩

/-- Where an aggregate does not depend on the order of a group, a grouping does not depend on the
    order of its rows. -/
theorem map_groupBy_perm (hvalue : ∀ a b, a.Perm b → value a = value b) (hrows : rows.Perm rows') :
    ((groupBy key rows).map fun group => (group.1, value group.2)).Perm
      ((groupBy key rows').map fun group => (group.1, value group.2)) := by
  have hgroup : ∀ k, value (rows.filter fun row => key row = k) =
      value (rows'.filter fun row => key row = k) := fun k => hvalue _ _ (hrows.filter _)
  simp only [groupBy, List.map_map, Function.comp_def, hgroup]
  exact (hrows.map key).dedup.map _

end

end Relational
