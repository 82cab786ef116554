import Mathlib.Data.List.Dedup
import Mathlib.Data.List.Sort
import Mathlib.Order.Basic

/-! # Keyed tables

A table with a primary key, as a lookup function together with the ascending
list of its keys.  The key list is what `ORDER BY key` reads, and because it is
determined by the lookup function (`Table.ext`), two tables with the same
content are equal.

The operations are the row-level effects of the SQL statements a client issues:
`insert` (an upsert that decided its row), `update` (`UPDATE … WHERE`) and
`delete` (`DELETE … WHERE`).  Each has one `lookup` equation, and no proof
outside this file looks at the key list. -/

namespace Relational

universe u v

/-- A finite table keyed by `κ`. -/
structure Table (κ : Type u) (ρ : Type v) [LinearOrder κ] where
  lookup : κ → Option ρ
  keys : List κ
  sorted : keys.Pairwise (· < ·)
  mem_keys : ∀ k, k ∈ keys ↔ (lookup k).isSome

namespace Table

variable {κ : Type u} {ρ : Type v} [LinearOrder κ]

/-- Tables are determined by what they answer to lookups. -/
theorem ext {t u : Table κ ρ} (h : ∀ k, t.lookup k = u.lookup k) : t = u := by
  have hlookup : t.lookup = u.lookup := funext h
  have hkeys : t.keys = u.keys := by
    apply t.sorted.eq_of_mem_iff u.sorted
    intro k
    rw [t.mem_keys, u.mem_keys, h]
  cases t; cases u
  cases hlookup; cases hkeys
  rfl

/-! ## Operations -/

/-- The table with no rows. -/
def empty : Table κ ρ where
  lookup := fun _ => none
  keys := []
  sorted := .nil
  mem_keys := by simp

/-- Write `row` at `key`, over whatever row was there. -/
def insert (t : Table κ ρ) (key : κ) (row : ρ) : Table κ ρ where
  lookup := fun k => if k = key then some row else t.lookup k
  keys := if key ∈ t.keys then t.keys else t.keys.orderedInsert (· ≤ ·) key
  sorted := by
    split
    · exact t.sorted
    · next fresh =>
      have hle : t.keys.Pairwise (· ≤ ·) := t.sorted.imp le_of_lt
      have hsorted := hle.orderedInsert key t.keys
      have hnodup : (t.keys.orderedInsert (· ≤ ·) key).Nodup :=
        ((t.keys.perm_orderedInsert (· ≤ ·) key).nodup_iff).2
          (List.nodup_cons.2 ⟨fresh, t.sorted.imp ne_of_lt⟩)
      exact (hsorted.and hnodup).imp fun ⟨hle, hne⟩ => lt_of_le_of_ne hle hne
  mem_keys := by
    intro k
    split
    · next present =>
      by_cases hk : k = key
      · simp [hk, present]
      · simp [hk, t.mem_keys]
    · rw [List.mem_orderedInsert]
      by_cases hk : k = key
      · simp [hk]
      · simp [hk, t.mem_keys]

/-- Rewrite every row in place; an `UPDATE` whose predicate is inside `f`. -/
def update (t : Table κ ρ) (f : κ → ρ → ρ) : Table κ ρ where
  lookup := fun k => (t.lookup k).map (f k)
  keys := t.keys
  sorted := t.sorted
  mem_keys := by intro k; simp [t.mem_keys]

/-- Remove every row that satisfies `p`. -/
def delete (t : Table κ ρ) (p : κ → ρ → Bool) : Table κ ρ where
  lookup := fun k => (t.lookup k).filter fun row => !p k row
  keys := t.keys.filter fun k => ((t.lookup k).filter fun row => !p k row).isSome
  sorted := t.sorted.filter _
  mem_keys := by
    intro k
    rw [List.mem_filter, t.mem_keys]
    cases t.lookup k <;> simp

/-- The table that answers `lookup`, given keys that cover its rows. -/
def ofLookup (lookup : κ → Option ρ) (support : List κ)
    (covers : ∀ k, (lookup k).isSome → k ∈ support) : Table κ ρ where
  lookup := lookup
  keys := (support.dedup.insertionSort (· ≤ ·)).filter fun k => (lookup k).isSome
  sorted := by
    have hsorted := List.pairwise_insertionSort (· ≤ ·) support.dedup
    have hnodup : (support.dedup.insertionSort (· ≤ ·)).Nodup :=
      (List.perm_insertionSort _ _).nodup_iff.2 (List.nodup_dedup _)
    exact ((hsorted.and hnodup).imp fun ⟨hle, hne⟩ => lt_of_le_of_ne hle hne).filter _
  mem_keys := by
    intro k
    simp only [List.mem_filter, List.mem_insertionSort, List.mem_dedup, and_iff_right_iff_imp]
    exact covers k

/-- Rewrite, add or remove the rows of the listed keys. -/
def alter (t : Table κ ρ) (ids : List κ) (f : κ → Option ρ → Option ρ) : Table κ ρ :=
  ofLookup (fun k => if k ∈ ids then f k (t.lookup k) else t.lookup k) (t.keys ++ ids) (by
    intro k hk
    rw [List.mem_append, t.mem_keys]
    by_cases hmem : k ∈ ids
    · exact .inr hmem
    · rw [if_neg hmem] at hk
      exact .inl hk)

/-- The rows of `t` at the keys of `p`, and of `base` elsewhere. -/
def overlay (t base : Table κ ρ) (p : κ → Bool) : Table κ ρ :=
  ofLookup (fun k => if p k then t.lookup k else base.lookup k) (t.keys ++ base.keys) (by
    intro k hk
    rw [List.mem_append, t.mem_keys, base.mem_keys]
    by_cases hp : p k = true
    · rw [if_pos hp] at hk
      exact .inl hk
    · rw [if_neg hp] at hk
      exact .inr hk)

/-- The rows in ascending key order. -/
def rows (t : Table κ ρ) : List (κ × ρ) :=
  t.keys.filterMap fun k => (t.lookup k).map fun row => (k, row)

/-! ## Lookup equations -/

@[simp] theorem lookup_empty (k : κ) : (empty : Table κ ρ).lookup k = none := rfl

theorem lookup_insert (t : Table κ ρ) (key : κ) (row : ρ) (k : κ) :
    (t.insert key row).lookup k = if k = key then some row else t.lookup k := rfl

@[simp] theorem lookup_insert_self (t : Table κ ρ) (key : κ) (row : ρ) :
    (t.insert key row).lookup key = some row := by simp [lookup_insert]

theorem lookup_insert_of_ne (t : Table κ ρ) {key k : κ} (row : ρ) (h : k ≠ key) :
    (t.insert key row).lookup k = t.lookup k := by simp [lookup_insert, h]

@[simp] theorem lookup_update (t : Table κ ρ) (f : κ → ρ → ρ) (k : κ) :
    (t.update f).lookup k = (t.lookup k).map (f k) := rfl

@[simp] theorem lookup_delete (t : Table κ ρ) (p : κ → ρ → Bool) (k : κ) :
    (t.delete p).lookup k = (t.lookup k).filter fun row => !p k row := rfl

theorem lookup_alter (t : Table κ ρ) (ids : List κ) (f : κ → Option ρ → Option ρ) (k : κ) :
    (t.alter ids f).lookup k = if k ∈ ids then f k (t.lookup k) else t.lookup k := rfl

theorem lookup_overlay (t base : Table κ ρ) (p : κ → Bool) (k : κ) :
    (t.overlay base p).lookup k = if p k then t.lookup k else base.lookup k := rfl

/-- An `UPDATE` of one key that is present. -/
theorem update_at (t : Table κ ρ) {key : κ} {row : ρ} (f : ρ → ρ) (h : t.lookup key = some row) :
    (t.update fun k r => if k = key then f r else r) = t.insert key (f row) := by
  apply ext
  intro k
  rw [lookup_update, lookup_insert]
  by_cases hk : k = key
  · simp [hk, h]
  · simp [hk]

@[simp] theorem mem_rows (t : Table κ ρ) (k : κ) (row : ρ) :
    (k, row) ∈ t.rows ↔ t.lookup k = some row := by
  simp only [rows, List.mem_filterMap, Option.map_eq_some_iff, Prod.mk.injEq]
  constructor
  · rintro ⟨k', _, row', hlookup, rfl, rfl⟩
    exact hlookup
  · intro hlookup
    exact ⟨k, (t.mem_keys k).2 (by simp [hlookup]), row, hlookup, rfl, rfl⟩

/-- `ORDER BY key` returns strictly ascending keys. -/
theorem rows_sorted (t : Table κ ρ) : t.rows.Pairwise fun a b => a.1 < b.1 := by
  refine List.Pairwise.filterMap _ ?_ t.sorted
  intro a a' hlt b hb b' hb'
  obtain ⟨row, _, rfl⟩ := Option.map_eq_some_iff.1 hb
  obtain ⟨row', _, rfl⟩ := Option.map_eq_some_iff.1 hb'
  exact hlt

@[simp] theorem rows_empty : (empty : Table κ ρ).rows = [] := rfl

/-! ## Keyset pages -/

/-- `WHERE p AND key > last ORDER BY key LIMIT limit`. -/
def page (t : Table κ ρ) (p : ρ → Bool) (last : κ) (limit : ℕ) : List (κ × ρ) :=
  (t.rows.filter fun entry => p entry.2 && last < entry.1).take limit

section

variable {t : Table κ ρ} {p : ρ → Bool} {last k : κ} {limit : ℕ} {row : ρ}

theorem of_mem_page (h : (k, row) ∈ t.page p last limit) :
    t.lookup k = some row ∧ p row = true ∧ last < k := by
  have hmem := List.mem_of_mem_take h
  rw [List.mem_filter, mem_rows] at hmem
  simpa using hmem

end

end Table

end Relational
