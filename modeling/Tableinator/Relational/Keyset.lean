import Tableinator.Relational.Table

/-! # Keyset scans

A client that reads a table page by page, each page starting after the last key of the
page before, and stops on an empty page or a short one. -/

namespace Relational

universe u v

namespace Table

variable {κ : Type u} {ρ : Type v} [LinearOrder κ]

/-- The pages a scan reads from an unchanging table, in order; `none` when `fuel` reads did
    not finish it. -/
def scanPages (t : Table κ ρ) (p : ρ → Bool) (limit : ℕ) : ℕ → κ → Option (List (List (κ × ρ)))
  | 0, _ => none
  | fuel + 1, last =>
    match (t.page p last limit).getLast? with
    | none => some []
    | some (next, _) =>
      if (t.page p last limit).length < limit then some [t.page p last limit]
      else (t.scanPages p limit fuel next).map (t.page p last limit :: ·)

/-- What a scan that starts after `last` is to read. -/
def after (t : Table κ ρ) (p : ρ → Bool) (last : κ) : List (κ × ρ) :=
  t.rows.filter fun entry => p entry.2 && last < entry.1

variable {t : Table κ ρ} {p : ρ → Bool} {last k : κ} {limit fuel : ℕ} {row : ρ}

theorem page_eq_take : t.page p last limit = (t.after p last).take limit := rfl

theorem after_sorted : (t.after p last).Pairwise fun a b => a.1 < b.1 := t.rows_sorted.filter _

@[simp] theorem mem_after :
    (k, row) ∈ t.after p last ↔ t.lookup k = some row ∧ p row = true ∧ last < k := by
  simp [after]

-- Past the last row of a taken front, a sorted list is what the front left over.
theorem filter_beyond {rows : List (κ × ρ)} {entry : κ × ρ}
    (hsorted : rows.Pairwise fun a b => a.1 < b.1) (hlast : (rows.take limit).getLast? = some entry) :
    (rows.filter fun e => entry.1 < e.1) = rows.drop limit := by
  rw [← List.take_append_drop limit rows] at hsorted
  have hcross := (List.pairwise_append.1 hsorted).2.2
  have hfront : ∀ e ∈ rows.take limit, e.1 ≤ entry.1 := by
    obtain ⟨front, hfront⟩ := List.getLast?_eq_some_iff.1 hlast
    intro e he
    have hpair := (List.pairwise_append.1 hsorted).1
    rw [hfront, List.pairwise_append] at hpair
    rw [hfront, List.mem_append, List.mem_singleton] at he
    cases he with
    | inl hmem => exact (hpair.2.2 e hmem entry (List.mem_singleton_self _)).le
    | inr heq => rw [heq]
  have htake : ((rows.take limit).filter fun e => entry.1 < e.1) = [] := by
    rw [List.filter_eq_nil_iff]
    intro e he
    simpa using hfront e he
  have hdrop : ((rows.drop limit).filter fun e => entry.1 < e.1) = rows.drop limit := by
    rw [List.filter_eq_self]
    intro e he
    simpa using hcross entry (List.mem_of_getLast? hlast) e he
  calc (rows.filter fun e => entry.1 < e.1)
      = ((rows.take limit ++ rows.drop limit).filter fun e => entry.1 < e.1) := by
        rw [List.take_append_drop]
    _ = rows.drop limit := by rw [List.filter_append, htake, hdrop, List.nil_append]

/-- The next page starts where this one ends. -/
theorem after_last {entry : κ × ρ} (h : (t.page p last limit).getLast? = some entry) :
    t.after p entry.1 = (t.after p last).drop limit := by
  have hmem := List.mem_of_mem_take (List.mem_of_getLast? h)
  have hbeyond : last < entry.1 := (mem_after.1 hmem).2.2
  rw [← filter_beyond after_sorted h, after, after, List.filter_filter]
  apply List.filter_congr
  intro e _
  by_cases he : entry.1 < e.1
  · simp [he, hbeyond.trans he]
  · simp [he]

/-- A row after the start is on the page, or the page is full and the row comes after it. -/
theorem mem_page_or_after (hlimit : 0 < limit) (hrow : (k, row) ∈ t.after p last) :
    (k, row) ∈ t.page p last limit ∨ limit ≤ (t.page p last limit).length ∧
      ∃ entry, (t.page p last limit).getLast? = some entry ∧ entry.1 < k := by
  by_cases hmem : (k, row) ∈ t.page p last limit
  · exact .inl hmem
  · have hdrop : (k, row) ∈ (t.after p last).drop limit := by
      rw [← List.take_append_drop limit (t.after p last), List.mem_append] at hrow
      exact hrow.resolve_left hmem
    have hlength : limit ≤ (t.page p last limit).length := by
      have hpositive := List.length_pos_of_mem hdrop
      rw [List.length_drop] at hpositive
      rw [page_eq_take, List.length_take]
      omega
    refine .inr ⟨hlength, ?_⟩
    cases hpage : (t.page p last limit).getLast? with
    | none =>
      rw [List.getLast?_eq_none_iff.1 hpage, List.length_nil] at hlength
      omega
    | some entry =>
      rw [← after_last hpage, mem_after] at hdrop
      exact ⟨entry, rfl, hdrop.2.2⟩

/-- A scan reads every row after its start once, in key order, with a read to spare for the
    page that comes back empty. -/
theorem scanPages_exact (hlimit : 0 < limit) (hfuel : (t.after p last).length < fuel) :
    ∃ pages, t.scanPages p limit fuel last = some pages ∧ pages.flatten = t.after p last := by
  induction fuel generalizing last with
  | zero => exact absurd hfuel (Nat.not_lt_zero _)
  | succ fuel ih =>
    rw [scanPages]
    cases hpage : (t.page p last limit).getLast? with
    | none =>
      -- The empty page: nothing is left.
      refine ⟨[], rfl, ?_⟩
      rw [List.getLast?_eq_none_iff, page_eq_take, List.take_eq_nil_iff] at hpage
      cases hpage with
      | inl hzero => omega
      | inr hempty => simp [hempty]
    | some entry =>
      simp only
      split
      · next hshort =>
        -- The short page: it holds all that is left.
        refine ⟨[t.page p last limit], rfl, ?_⟩
        rw [page_eq_take, List.length_take] at hshort
        simp only [List.flatten_singleton, page_eq_take]
        exact List.take_of_length_le (by omega)
      · next hfull =>
        rw [page_eq_take, List.length_take] at hfull
        have hrest := after_last hpage
        have hless : (t.after p entry.1).length < fuel := by
          rw [hrest, List.length_drop]
          omega
        obtain ⟨pages, hscan, hflatten⟩ := ih hless
        refine ⟨t.page p last limit :: pages, ?_, ?_⟩
        · simp [hscan]
        · rw [List.flatten_cons, hflatten, hrest, page_eq_take, List.take_append_drop]

/-- More reads than a scan needs change nothing. -/
theorem scanPages_mono {pages : List (List (κ × ρ))} {more : ℕ}
    (h : t.scanPages p limit fuel last = some pages) (hmore : fuel ≤ more) :
    t.scanPages p limit more last = some pages := by
  induction fuel generalizing last pages more with
  | zero => cases h
  | succ fuel ih =>
    obtain ⟨more, rfl⟩ : ∃ n, more = n + 1 := ⟨more - 1, by omega⟩
    rw [scanPages] at h ⊢
    cases hpage : (t.page p last limit).getLast? with
    | none => simpa [hpage] using h
    | some entry =>
      simp only [hpage] at h ⊢
      split at h
      · next hshort => simpa [hshort] using h
      · next hfull =>
        obtain ⟨rest, hrest, hpages⟩ := Option.map_eq_some_iff.1 h
        simp [hfull, ih hrest (by omega : fuel ≤ more), hpages]

end Table

end Relational
