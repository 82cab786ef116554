import Mathlib.Data.Finset.Basic
import Mathlib.Data.List.Sort
import Mathlib.Logic.Function.Basic

/-! # Relations without an order

A relation as the finite set of its rows, with a unique key given by a function
of the row.  `insertAll` is `INSERT … ON CONFLICT DO NOTHING` of a list of rows
in order: a row is written unless a row with its key is already there.

What an insert leaves behind depends on the list only through the first row
offered for each key (`mem_insertAll`), so deduplicating the list and any stable
sort on the key make no difference to it. -/

namespace Relational

universe u v

variable {ρ : Type u} {κ : Type v}

/-! ## Lists as ordered sets -/

theorem find?_filter_of_imp {p q : ρ → Bool} (h : ∀ row, p row = true → q row = true)
    (rows : List ρ) : (rows.filter q).find? p = rows.find? p := by
  rw [List.find?_filter]
  congr 1
  funext row
  cases hp : p row with
  | false => simp
  | true => simp [h row hp]

/-- A stable insertion keeps the first row of every class of mutually ordered rows. -/
theorem find?_orderedInsert {le : ρ → ρ → Prop} [DecidableRel le] {p : ρ → Bool}
    (hle : ∀ a b, p a = true → p b = true → le a b) (row : ρ) (rows : List ρ) :
    (rows.orderedInsert le row).find? p = (row :: rows).find? p := by
  induction rows with
  | nil => rfl
  | cons head rows ih =>
    rw [List.orderedInsert_cons]
    split
    · rfl
    · next hlt =>
      rw [List.find?_cons, ih, List.find?_cons, List.find?_cons, List.find?_cons]
      cases hrow : p row with
      | false => rfl
      | true =>
        cases hhead : p head with
        | false => rfl
        | true => exact absurd (hle row head hrow hhead) hlt

theorem find?_insertionSort {le : ρ → ρ → Prop} [DecidableRel le] {p : ρ → Bool}
    (hle : ∀ a b, p a = true → p b = true → le a b) (rows : List ρ) :
    (rows.insertionSort le).find? p = rows.find? p := by
  induction rows with
  | nil => rfl
  | cons head rows ih =>
    rw [List.insertionSort_cons, find?_orderedInsert hle, List.find?_cons, List.find?_cons, ih]

variable [DecidableEq κ]

/-- The first row of every key, in order. -/
def firstBy (key : ρ → κ) : List ρ → List ρ
  | [] => []
  | row :: rows => row :: (firstBy key rows).filter (key · ≠ key row)

theorem firstBy_key_injective {key : ρ → κ} {a b : ρ} {rows : List ρ} (ha : a ∈ firstBy key rows)
    (hb : b ∈ firstBy key rows) (hkey : key a = key b) : a = b := by
  induction rows with
  | nil => simp [firstBy] at ha
  | cons head rows ih =>
    simp only [firstBy, List.mem_cons, List.mem_filter, decide_eq_true_eq] at ha hb
    rcases ha with rfl | ⟨ha, hane⟩ <;> rcases hb with rfl | ⟨hb, hbne⟩
    · rfl
    · exact absurd hkey.symm hbne
    · exact absurd hkey hane
    · exact ih ha hb

/-- A kept row is kept once. -/
theorem nodup_firstBy (key : ρ → κ) (rows : List ρ) : (firstBy key rows).Nodup := by
  induction rows with
  | nil => exact List.nodup_nil
  | cons head rows ih =>
    rw [firstBy, List.nodup_cons]
    constructor
    · intro hhead
      simp at hhead
    · exact ih.filter _

variable [DecidableEq ρ]

/-- `list(dict.fromkeys(rows))`: the rows in order, later repetitions dropped. -/
def unique (rows : List ρ) : List ρ := firstBy id rows

@[simp] theorem mem_unique {row : ρ} {rows : List ρ} : row ∈ unique rows ↔ row ∈ rows := by
  induction rows with
  | nil => rfl
  | cons head rows ih =>
    rw [unique] at ih
    by_cases h : row = head
    · simp [unique, firstBy, h]
    · simp [unique, firstBy, h, ih]

theorem nodup_unique (rows : List ρ) : (unique rows).Nodup := nodup_firstBy id rows

theorem find?_unique (p : ρ → Bool) (rows : List ρ) : (unique rows).find? p = rows.find? p := by
  induction rows with
  | nil => rfl
  | cons head rows ih =>
    rw [unique] at ih
    rw [unique, firstBy, List.find?_cons, List.find?_cons]
    cases hp : p head with
    | true => rfl
    | false =>
      have himp : ∀ row, p row = true → decide (id row ≠ id head) = true := by
        intro row hrow
        have hne : row ≠ head := fun heq => by rw [heq, hp] at hrow; cases hrow
        simpa using hne
      simp only [find?_filter_of_imp himp, ih]

/-! ## Inserting rows -/

section Insert

variable (key : ρ → κ)

/-- One row of an `INSERT … ON CONFLICT DO NOTHING`. -/
def insertRow (rows : Finset ρ) (row : ρ) : Finset ρ :=
  if ∃ other ∈ rows, key other = key row then rows else insert row rows

def insertAll (rows : Finset ρ) (incoming : List ρ) : Finset ρ :=
  incoming.foldl (insertRow key) rows

variable {key}

@[simp] theorem insertAll_nil (rows : Finset ρ) : insertAll key rows [] = rows := rfl

@[simp] theorem insertAll_cons (rows : Finset ρ) (row : ρ) (incoming : List ρ) :
    insertAll key rows (row :: incoming) = insertAll key (insertRow key rows row) incoming := rfl

theorem insertAll_append (rows : Finset ρ) (first second : List ρ) :
    insertAll key rows (first ++ second) = insertAll key (insertAll key rows first) second := by
  simp [insertAll, List.foldl_append]

/-- The key of `row` is taken in `rows`. -/
def Taken (key : ρ → κ) (rows : Finset ρ) (row : ρ) : Prop := ∃ other ∈ rows, key other = key row

theorem insertRow_of_taken {rows : Finset ρ} {row : ρ} (h : Taken key rows row) :
    insertRow key rows row = rows := if_pos h

theorem insertRow_of_not_taken {rows : Finset ρ} {row : ρ} (h : ¬Taken key rows row) :
    insertRow key rows row = insert row rows := if_neg h

theorem taken_insertRow {rows : Finset ρ} {row new : ρ} :
    Taken key (insertRow key rows new) row ↔ Taken key rows row ∨ key new = key row := by
  by_cases htaken : Taken key rows new
  · rw [insertRow_of_taken htaken]
    refine ⟨Or.inl, fun h => h.elim id fun hkey => ?_⟩
    obtain ⟨other, hmem, hother⟩ := htaken
    exact ⟨other, hmem, hother.trans hkey⟩
  · rw [insertRow_of_not_taken htaken]
    simp only [Taken, Finset.exists_mem_insert]
    exact or_comm

/-- A row is there afterwards if it was before, or if its key was free and it is the
    first one offered for it. -/
theorem mem_insertAll {rows : Finset ρ} {incoming : List ρ} {row : ρ} :
    row ∈ insertAll key rows incoming ↔
      row ∈ rows ∨ ¬Taken key rows row ∧
        incoming.find? (fun other => key other = key row) = some row := by
  induction incoming generalizing rows with
  | nil => simp
  | cons head incoming ih =>
    rw [insertAll_cons, ih, taken_insertRow, List.find?_cons]
    by_cases hkey : key head = key row
    · by_cases htaken : Taken key rows head
      · have htaken' : Taken key rows row := by
          obtain ⟨other, hmem, hother⟩ := htaken
          exact ⟨other, hmem, hother.trans hkey⟩
        simp [insertRow_of_taken htaken, htaken', hkey]
      · have hfree : ¬Taken key rows row := by
          rintro ⟨other, hmem, hother⟩
          exact htaken ⟨other, hmem, hother.trans hkey.symm⟩
        simp only [insertRow_of_not_taken htaken, Finset.mem_insert, hkey, or_true,
          not_true_eq_false, false_and, or_false, decide_true, hfree, not_false_eq_true, true_and,
          Option.some.injEq]
        exact ⟨fun h => h.elim (fun h => .inr h.symm) .inl, fun h => h.elim .inr fun h => .inl h.symm⟩
    · have hrow : row ∈ insertRow key rows head ↔ row ∈ rows := by
        by_cases htaken : Taken key rows head
        · rw [insertRow_of_taken htaken]
        · have hne : row ≠ head := fun heq => hkey (by rw [heq])
          simp [insertRow_of_not_taken htaken, hne]
      simp [hrow, hkey]

theorem mem_insertAll_of_mem {rows : Finset ρ} {incoming : List ρ} {row : ρ} (h : row ∈ rows) :
    row ∈ insertAll key rows incoming := mem_insertAll.2 (.inl h)

theorem mem_of_mem_insertAll {rows : Finset ρ} {incoming : List ρ} {row : ρ}
    (h : row ∈ insertAll key rows incoming) : row ∈ rows ∨ row ∈ incoming :=
  (mem_insertAll.1 h).imp_right fun ⟨_, hfind⟩ => List.mem_of_find?_eq_some hfind

/-- A row that is not inserted is there exactly if it was. -/
theorem mem_insertAll_iff_of_not_inserted {rows : Finset ρ} {incoming : List ρ} {row : ρ}
    (h : ¬(row ∈ incoming ∧ row ∈ insertAll key rows incoming ∧ row ∉ rows)) :
    row ∈ insertAll key rows incoming ↔ row ∈ rows := by
  refine ⟨fun hmem => ?_, mem_insertAll_of_mem⟩
  by_contra hfresh
  exact h ⟨(mem_of_mem_insertAll hmem).resolve_left hfresh, hmem, hfresh⟩

/-- Every offered row is there, or another row holds its key. -/
theorem taken_insertAll {rows : Finset ρ} {incoming : List ρ} {row : ρ} (h : row ∈ incoming) :
    Taken key (insertAll key rows incoming) row := by
  by_cases htaken : Taken key rows row
  · obtain ⟨other, hmem, hkey⟩ := htaken
    exact ⟨other, mem_insertAll_of_mem hmem, hkey⟩
  · cases hfind : incoming.find? (fun other => key other = key row) with
    | none => exact absurd (List.find?_eq_none.1 hfind row h) (by simp)
    | some first =>
      have hkey : key first = key row := by simpa using List.find?_some hfind
      refine ⟨first, mem_insertAll.2 (.inr ⟨?_, by rw [hkey]; exact hfind⟩), hkey⟩
      rintro ⟨other, hmem, hother⟩
      exact htaken ⟨other, hmem, hother.trans hkey⟩

/-- Two lists that offer the same first row for every key insert the same rows. -/
theorem insertAll_congr {rows : Finset ρ} {first second : List ρ}
    (h : ∀ k, first.find? (fun row => key row = k) = second.find? (fun row => key row = k)) :
    insertAll key rows first = insertAll key rows second := by
  ext row
  rw [mem_insertAll, mem_insertAll, h]

theorem insertAll_unique (rows : Finset ρ) (incoming : List ρ) :
    insertAll key rows (unique incoming) = insertAll key rows incoming :=
  insertAll_congr fun _ => find?_unique _ incoming

/-- A stable sort whose order ties rows of one key changes nothing. -/
theorem insertAll_insertionSort {le : ρ → ρ → Prop} [DecidableRel le]
    (hle : ∀ a b, key a = key b → le a b) (rows : Finset ρ) (incoming : List ρ) :
    insertAll key rows (incoming.insertionSort le) = insertAll key rows incoming := by
  refine insertAll_congr fun k => find?_insertionSort (fun a b ha hb => hle a b ?_) incoming
  simp only [decide_eq_true_eq] at ha hb
  rw [ha, hb]

/-- A delete that spares the incoming rows, and decides by the key, may be done first. -/
theorem filter_insertAll {p : ρ → Prop} [DecidablePred p] {incoming : List ρ}
    (hkey : ∀ a b, key a = key b → p a → p b) (hrows : ∀ row ∈ incoming, p row) (rows : Finset ρ) :
    (insertAll key rows incoming).filter p = insertAll key (rows.filter p) incoming := by
  ext row
  simp only [Finset.mem_filter, mem_insertAll]
  have htaken : p row → (Taken key (rows.filter p) row ↔ Taken key rows row) := by
    intro hrow
    constructor
    · rintro ⟨other, hmem, hother⟩
      exact ⟨other, (Finset.mem_filter.1 hmem).1, hother⟩
    · rintro ⟨other, hmem, hother⟩
      exact ⟨other, Finset.mem_filter.2 ⟨hmem, hkey row other hother.symm hrow⟩, hother⟩
  constructor
  · rintro ⟨hmem | ⟨hfree, hfind⟩, hrow⟩
    · exact .inl ⟨hmem, hrow⟩
    · exact .inr ⟨fun h => hfree ((htaken hrow).1 h), hfind⟩
  · rintro (⟨hmem, hrow⟩ | ⟨hfree, hfind⟩)
    · exact ⟨.inl hmem, hrow⟩
    · have hrow := hrows row (List.mem_of_find?_eq_some hfind)
      exact ⟨.inr ⟨fun h => hfree ((htaken hrow).2 h), hfind⟩, hrow⟩

/-- Where a list offers one row for a key, its order makes no difference. -/
theorem insertAll_of_mem_iff {rows : Finset ρ} {first second : List ρ}
    (hmem : ∀ row, row ∈ first ↔ row ∈ second)
    (hkey : ∀ a ∈ first, ∀ b ∈ first, key a = key b → a = b) :
    insertAll key rows first = insertAll key rows second := by
  have hfind : ∀ (incoming : List ρ) (row : ρ),
      (∀ a ∈ incoming, ∀ b ∈ incoming, key a = key b → a = b) →
      (incoming.find? (fun other => key other = key row) = some row ↔ row ∈ incoming) := by
    intro incoming row hinjective
    constructor
    · exact List.mem_of_find?_eq_some
    · intro hrow
      cases hfound : incoming.find? (fun other => key other = key row) with
      | none => exact absurd (List.find?_eq_none.1 hfound row hrow) (by simp)
      | some other =>
        have hother : key other = key row := by simpa using List.find?_some hfound
        rw [hinjective other (List.mem_of_find?_eq_some hfound) row hrow hother]
  have hkey' : ∀ a ∈ second, ∀ b ∈ second, key a = key b → a = b :=
    fun a ha b hb => hkey a ((hmem a).2 ha) b ((hmem b).2 hb)
  ext row
  rw [mem_insertAll, mem_insertAll, hfind first row hkey, hfind second row hkey', hmem]

end Insert

/-! ## Families of relations -/

/-- A loop that rewrites one member of a family at a time. -/
theorem foldl_update {ι : Type u} [DecidableEq ι] {β : ι → Type v} (f : ∀ i, β i → β i) {xs : List ι}
    (hnodup : xs.Nodup) (family : ∀ i, β i) (i : ι) :
    xs.foldl (fun family j => Function.update family j (f j (family j))) family i =
      if i ∈ xs then f i (family i) else family i := by
  induction xs generalizing family with
  | nil => simp
  | cons j xs ih =>
    obtain ⟨hfresh, hnodup⟩ := List.nodup_cons.1 hnodup
    rw [List.foldl_cons, ih hnodup]
    by_cases hi : i = j
    · subst hi
      simp [hfresh]
    · simp [hi]

end Relational
