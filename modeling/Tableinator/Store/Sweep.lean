import Tableinator.Relational.Keyset
import Tableinator.Store.Serial

/-! # The additive-edge sweep

`reconcile_additive_edges` recomputes `member_of` and `same_as` from the stored
documents: keyset pages of the documents a predicate selects, one insert of what they
assert, and one anti-join delete of what they do not.  Run alone it leaves exactly the
rows of the selected documents.  For `member_of` these are the rows of all documents;
for `same_as` the predicate reads the release's own credits only, and misses the
credits of its tracks. -/

namespace Tableinator

open Effect Relational Tableinator.Graph

/-- `DOCUMENT_PAGE_SIZE`. -/
def documentPageSize : Nat := 2000

section

variable (rt : Runtime)

/-- The rows one stored document asserts. -/
def asserts (a : AdditiveRelation) (dataId : String) (data : Json) : List (EdgeRow a.relation) :=
  (deriveStored rt a.table dataId data).edges a.relation

/-- `_asserted_rows`. -/
def assertedRows (a : AdditiveRelation) (documents : List (String × Json)) :
    List (EdgeRow a.relation) :=
  unique (documents.flatMap fun (dataId, data) => asserts rt a dataId data)

/-- The page loop of `reconcile_additive_edges`; `asserted` is the temporary table. -/
def assertedPages (a : AdditiveRelation) :
    Nat → String → List (EdgeRow a.relation) → Transaction (List (EdgeRow a.relation))
  | 0, _, _ => .raise .interrupted
  | fuel + 1, lastId, asserted => do
    let page ← Program.await (.documentPage a lastId documentPageSize)
    match page.getLast? with
    | none => pure asserted
    | some (dataId, _) =>
      if page.length < documentPageSize then pure (asserted ++ assertedRows rt a page)
      else assertedPages a fuel dataId (asserted ++ assertedRows rt a page)

/-- One relation of `reconcile_additive_edges`: an empty source table skips it. -/
def reconcileRelation (fuel : Nat) (a : AdditiveRelation) : Transaction PUnit := do
  let total ← Program.await (.countRows a.table)
  if total = 0 then pure ⟨⟩
  else do
    let asserted ← assertedPages rt a fuel "" []
    Program.await (.insertAsserted a asserted)
    Program.await (.deleteUnasserted a asserted)

/-- `reconcile_additive_edges`; `fuel` bounds the pages of one relation. -/
def reconcileAdditiveEdges (fuel : Nat) : Transaction PUnit := do
  reconcileRelation rt fuel .memberOf
  reconcileRelation rt fuel .sameAs

/-- A stored document asserts the row. -/
def AssertedIn (a : AdditiveRelation) (st : Store) (edge : EdgeRow a.relation) : Prop :=
  ∃ dataId row, (st.entities a.table).lookup dataId = some row ∧ edge ∈ asserts rt a dataId row.data

/-- A stored document the sweep's predicate selects asserts the row. -/
def SelectedIn (a : AdditiveRelation) (st : Store) (edge : EdgeRow a.relation) : Prop :=
  ∃ dataId row, (st.entities a.table).lookup dataId = some row ∧ a.selects row.data = true ∧
    edge ∈ asserts rt a dataId row.data

end

variable {rt : Runtime} {a : AdditiveRelation} {st : Store}

theorem mem_assertedRows {documents : List (String × Json)} {edge : EdgeRow a.relation} :
    edge ∈ assertedRows rt a documents ↔
      ∃ dataId data, (dataId, data) ∈ documents ∧ edge ∈ asserts rt a dataId data := by
  simp [assertedRows]

/-! ## The pages -/

/-- The ids and payloads a page query returns for its rows. -/
def documentsOf (page : List (String × EntityRow)) : List (String × Json) :=
  page.map fun (dataId, row) => (dataId, row.data)

theorem mem_documentsOf {page : List (String × EntityRow)} {dataId : String} {data : Json} :
    (dataId, data) ∈ documentsOf page ↔ ∃ row, (dataId, row) ∈ page ∧ row.data = data := by
  simp [documentsOf]

theorem getLast?_documentsOf {page : List (String × EntityRow)} :
    (documentsOf page).getLast? = page.getLast?.map fun entry => (entry.1, entry.2.data) :=
  List.getLast?_map

theorem length_documentsOf {page : List (String × EntityRow)} :
    (documentsOf page).length = page.length := List.length_map _

/-- The pages the loop reads from the documents of an unchanging table, under any order of
    the ids, starting after `lastId`. -/
def documentPages {κ : Type} [LinearOrder κ] (documents : Table κ EntityRow)
    (predicate : Json → Bool) (pageSize fuel : Nat) (lastId : κ) :
    Option (List (List (κ × EntityRow))) :=
  documents.scanPages (fun row => predicate row.data) pageSize fuel lastId

/-- Run alone, the loop asserts the rows of the pages a scan of the table reads. -/
theorem serial_assertedPages (fuel : Nat) (lastId : String) (asserted : List (EdgeRow a.relation)) :
    (assertedPages rt a fuel lastId asserted).serial engine.alone st =
      match documentPages (st.entities a.table) a.selects documentPageSize fuel lastId with
      | none => .error .interrupted
      | some pages =>
        .ok (asserted ++ pages.flatMap fun page => assertedRows rt a (documentsOf page), st) := by
  induction fuel generalizing lastId asserted with
  | zero => rfl
  | succ fuel ih =>
    have hread : engine.alone (Statement.documentPage a lastId documentPageSize) st =
        (documentsOf ((st.entities a.table).page (fun row => a.selects row.data) lastId
          documentPageSize), st) := rfl
    rw [assertedPages, Program.serial_bind, Program.serial_await, hread, documentPages,
      Table.scanPages]
    generalize (st.entities a.table).page (fun row => a.selects row.data) lastId
      documentPageSize = page
    simp only [getLast?_documentsOf, length_documentsOf]
    cases page.getLast? with
    | none => simp
    | some entry =>
      obtain ⟨next, row⟩ := entry
      simp only [Option.map_some]
      split
      · simp
      · rw [ih next, documentPages]
        cases (st.entities a.table).scanPages (fun row => a.selects row.data)
            documentPageSize fuel next with
        | none => rfl
        | some pages => simp

/-- Run alone, the loop reads every selected document after `lastId`. -/
theorem serial_assertedPages_reads {fuel : Nat} {lastId : String}
    (hfuel : ((st.entities a.table).after (fun row => a.selects row.data) lastId).length < fuel) :
    ∃ asserted, (assertedPages rt a fuel lastId []).serial engine.alone st = .ok (asserted, st) ∧
      ∀ edge, edge ∈ asserted ↔ ∃ dataId row,
        (st.entities a.table).lookup dataId = some row ∧ a.selects row.data = true ∧
          lastId < dataId ∧ edge ∈ asserts rt a dataId row.data := by
  obtain ⟨pages, hpages, hread⟩ := Table.scanPages_exact (by decide : 0 < documentPageSize) hfuel
  refine ⟨pages.flatMap fun page => assertedRows rt a (documentsOf page), ?_, ?_⟩
  · rw [serial_assertedPages, documentPages, hpages]
    simp
  · intro edge
    have hmem : ∀ dataId row, (∃ page ∈ pages, (dataId, row) ∈ page) ↔
        (st.entities a.table).lookup dataId = some row ∧ a.selects row.data = true ∧
          lastId < dataId := by
      intro dataId row
      rw [← List.mem_flatten, hread, Table.mem_after]
    simp only [List.mem_flatMap, mem_assertedRows, mem_documentsOf]
    constructor
    · intro h
      obtain ⟨page, hpage, dataId, _, ⟨row, hrow, rfl⟩, hedge⟩ := h
      obtain ⟨hlookup, hselects, hlast⟩ := (hmem dataId row).1 ⟨page, hpage, hrow⟩
      exact ⟨dataId, row, hlookup, hselects, hlast, hedge⟩
    · intro h
      obtain ⟨dataId, row, hlookup, hselects, hlast, hedge⟩ := h
      obtain ⟨page, hpage, hrow⟩ := (hmem dataId row).2 ⟨hlookup, hselects, hlast⟩
      exact ⟨page, hpage, dataId, row.data, ⟨row, hrow, rfl⟩, hedge⟩

theorem empty_lt {s : String} (h : s ≠ "") : "" < s := by
  have hchars : s.toList ≠ [] := by simpa using h
  obtain ⟨c, cs, hcs⟩ := List.exists_cons_of_ne_nil hchars
  rw [String.lt_iff_toList_lt, hcs]
  exact List.nil_lt_cons c cs

/-- Whatever order the ids have, as long as the empty text comes before all of them, the scan
    ends and its pages are the selected documents, each once and in the order of the ids.  The
    loop of the sweep handles the pages of one such scan. -/
theorem documents_are_scanned_once {κ : Type} [LinearOrder κ] (documents : Table κ EntityRow)
    (predicate : Json → Bool) (pageSize : Nat) (blank : κ) (hpageSize : 1 ≤ pageSize)
    (hblank : ∀ dataId, blank ≤ dataId) (hids : documents.lookup blank = none) :
    (∃ pages, (∀ fuel, (documents.rows.filter fun e => predicate e.2.data).length < fuel →
          documentPages documents predicate pageSize fuel blank = some pages) ∧
        pages.flatten = (documents.rows.filter fun e => predicate e.2.data) ∧
        (pages.flatten.Pairwise fun d e => d.1 < e.1) ∧
        ∀ dataId row, (dataId, row) ∈ pages.flatten ↔
          documents.lookup dataId = some row ∧ predicate row.data = true) ∧
      ∀ (rt : Runtime) (a : AdditiveRelation) (st : Store) (fuel : Nat),
        (assertedPages rt a fuel "" []).serial engine.alone st =
          match documentPages (st.entities a.table) a.selects documentPageSize fuel "" with
          | none => .error .interrupted
          | some pages =>
            .ok (pages.flatMap fun page => assertedRows rt a (documentsOf page), st) := by
  refine ⟨?_, ?_⟩
  · -- Every id comes after the empty text, so the scan starts before all of them.
    have hall : documents.after (fun row => predicate row.data) blank =
        documents.rows.filter fun e => predicate e.2.data := by
      apply List.filter_congr
      intro e he
      have hne : blank ≠ e.1 := by
        intro h
        have hlookup := (Table.mem_rows documents e.1 e.2).1 he
        rw [← h, hids] at hlookup
        cases hlookup
      simp [lt_of_le_of_ne (hblank e.1) hne]
    have hfuel : (documents.after (fun row => predicate row.data) blank).length <
        (documents.rows.filter fun e => predicate e.2.data).length + 1 := by
      rw [hall]
      omega
    obtain ⟨pages, hpages, hread⟩ := Table.scanPages_exact hpageSize hfuel
    rw [hall] at hread
    refine ⟨pages, ?_, hread, ?_, ?_⟩
    · intro fuel hfuel
      have hmore := Table.scanPages_mono hpages hfuel
      exact hmore
    · rw [hread]
      exact documents.rows_sorted.filter _
    · intro dataId row
      rw [hread]
      simp
  · intro rt a st fuel
    rw [serial_assertedPages]
    simp

/-- Two documents, of which a page holds one: the last page is full, and an empty one follows. -/
def twoDocuments : Table String EntityRow :=
  (Table.empty.insert "2" ⟨"b", .obj [], none, none, 1⟩).insert "1" ⟨"a", .obj [], none, none, 1⟩

theorem documents_are_scanned_once_two :
    ∃ pages, documentPages twoDocuments (fun _ => true) 1 3 "" = some pages ∧
      pages.flatten.map Prod.fst = ["1", "2"] := by
  have hblank : ∀ dataId : String, "" ≤ dataId := by
    intro dataId
    by_cases h : dataId = ""
    · exact le_of_eq h.symm
    · exact (empty_lt h).le
  have hids : twoDocuments.lookup "" = none := by rfl
  obtain ⟨pages, hpages, hread, -, -⟩ := (documents_are_scanned_once twoDocuments (fun _ => true)
    1 "" (by decide) hblank hids).1
  refine ⟨pages, hpages 3 (by decide +kernel), ?_⟩
  rw [hread]
  decide +kernel

/-! ## One relation -/

/-- Both relations are keyed on all of their columns. -/
theorem additive_key_injective {x y : EdgeRow a.relation} (hkey : x.key = y.key) : x = y := by
  refine EdgeRow.key_injective (fun column hcolumn => ?_) hkey
  cases a <;> (simp only [AdditiveRelation.relation, edgeColumns] at hcolumn; revert hcolumn column; decide)

theorem mem_insertAll_additive {rows : Finset (EdgeRow a.relation)}
    {incoming : List (EdgeRow a.relation)} {edge : EdgeRow a.relation} :
    edge ∈ insertAll EdgeRow.key rows incoming ↔ edge ∈ rows ∨ edge ∈ incoming := by
  refine ⟨mem_of_mem_insertAll, ?_⟩
  rintro (hrow | hrow)
  · exact mem_insertAll_of_mem hrow
  · have htaken : Taken EdgeRow.key (insertAll EdgeRow.key rows incoming) edge :=
      taken_insertAll hrow
    obtain ⟨other, hother, hkey⟩ := htaken
    rwa [additive_key_injective hkey] at hother

/-- The relation after its insert and its delete. -/
def reconciled (a : AdditiveRelation) (asserted : List (EdgeRow a.relation)) (st : Store) : Store :=
  (engine.alone (.deleteUnasserted a asserted) (engine.alone (.insertAsserted a asserted) st).2).2

theorem mem_reconciled {asserted : List (EdgeRow a.relation)} {edge : EdgeRow a.relation} :
    edge ∈ (reconciled a asserted st).edges a.relation ↔ edge ∈ asserted := by
  have hinserted : edge ∈ (engine.alone (.insertAsserted a asserted) st).2.edges a.relation ↔
      edge ∈ st.edges a.relation ∨ edge ∈ asserted := by
    simp only [Engine.alone, engine, Statement.change, Change.apply, Function.update_self]
    rw [mem_insertAll_additive, mem_unique]
  rw [reconciled]
  generalize (engine.alone (.insertAsserted a asserted) st).2 = inserted at hinserted
  simp only [Engine.alone, engine, Statement.change, Change.apply, Function.update_self,
    Finset.mem_filter, Statement.doomed, Finset.notMem_empty, not_false_eq_true, true_and,
    decide_eq_true_eq, decide_eq_false_iff_not, not_and, not_not]
  rw [hinserted]
  constructor
  · exact fun h => h.2 h.1
  · exact fun h => ⟨.inr h, fun _ => h⟩

theorem edges_reconciled {asserted : List (EdgeRow a.relation)} {r : EdgeRelation}
    (hr : r ≠ a.relation) : (reconciled a asserted st).edges r = st.edges r := by
  simp [reconciled, Engine.alone, engine, Statement.change, Change.apply, Function.update_of_ne hr]

/-- Run alone on a table with rows, one relation's sweep leaves what the selected documents
    assert. -/
theorem serial_reconcileRelation (rt : Runtime) (a : AdditiveRelation) (st : Store) {fuel : Nat}
    (hrows : (st.entities a.table).rows ≠ []) (hids : (st.entities a.table).lookup "" = none)
    (hfuel : (st.entities a.table).keys.length < fuel) :
    ∃ asserted, (reconcileRelation rt fuel a).serial engine.alone st =
        .ok (⟨⟩, reconciled a asserted st) ∧ ∀ edge, edge ∈ asserted ↔ SelectedIn rt a st edge := by
  have hafter : ((st.entities a.table).after (fun row => a.selects row.data) "").length < fuel := by
    refine lt_of_le_of_lt ?_ hfuel
    exact (List.length_filter_le _ _).trans (List.length_filterMap_le _ _)
  have htotal : (Statement.countRows a.table).read st ≠ 0 := by
    simpa [Statement.read] using hrows
  obtain ⟨asserted, hpages, hasserted⟩ := @serial_assertedPages_reads rt a st fuel "" hafter
  refine ⟨asserted, ?_, fun edge => ?_⟩
  · rw [reconcileRelation, Program.serial_bind, Program.serial_await]
    show Program.serial _ (if (Statement.countRows a.table).read st = 0 then _ else _) st = _
    rw [if_neg htotal, Program.serial_bind, hpages]
    rfl
  · rw [hasserted]
    simp only [SelectedIn]
    refine exists_congr fun dataId => exists_congr fun row => ?_
    constructor
    · rintro ⟨hrow, hselects, _, hedge⟩
      exact ⟨hrow, hselects, hedge⟩
    · rintro ⟨hrow, hselects, hedge⟩
      have hne : dataId ≠ "" := by
        rintro rfl
        rw [hids] at hrow
        cases hrow
      exact ⟨hrow, hselects, empty_lt hne, hedge⟩

/-! ## The whole sweep -/

theorem elementIds_eq_nil {value : Json} (h : value.nonEmptyArray = false) :
    elementIds value = [] := by
  simp [elementIds, elements_eq_nil h, unique, firstBy]

/-- An artist the predicate rejects asserts no membership. -/
theorem selects_of_asserts {dataId : String} {data : Json} {edge : EdgeRow .memberOf}
    (h : edge ∈ asserts rt .memberOf dataId data) : AdditiveRelation.memberOf.selects data = true := by
  cases data with
  | obj document =>
    by_contra hrejects
    simp only [AdditiveRelation.selects, Json.field, Bool.not_eq_true, Bool.or_eq_false_iff] at hrejects
    have hnone : asserts rt .memberOf dataId (.obj document) = [] := by
      simp [asserts, AdditiveRelation.table, AdditiveRelation.relation, deriveStored, deriveDocument,
        deriveArtist, elementIds_eq_nil hrejects.1, elementIds_eq_nil hrejects.2, unique, firstBy]
    rw [hnone] at h
    cases h
  | _ => exact (List.not_mem_nil h).elim

theorem selectedIn_memberOf_iff {edge : EdgeRow .memberOf} :
    SelectedIn rt .memberOf st edge ↔ AssertedIn rt .memberOf st edge := by
  constructor
  · rintro ⟨dataId, row, hrow, _, hedge⟩
    exact ⟨dataId, row, hrow, hedge⟩
  · rintro ⟨dataId, row, hrow, hedge⟩
    exact ⟨dataId, row, hrow, selects_of_asserts hedge, hedge⟩

/-- Run alone on non-empty tables, the sweep makes both relations the union of what the stored
    documents assert exactly if every `same_as` row of a release without credits of its own is
    asserted by some release with them. -/
theorem sweep_is_exact_iff {fuel : Nat} (hartists : (st.entities .artists).rows ≠ [])
    (hreleases : (st.entities .releases).rows ≠ [])
    (hids : ∀ t, (st.entities t).lookup "" = none)
    (hfuel : ∀ t, (st.entities t).keys.length < fuel) :
    ∃ st', (reconcileAdditiveEdges rt fuel).serial engine.alone st = .ok (⟨⟩, st') ∧
      (((∀ edge, edge ∈ st'.edges .memberOf ↔ AssertedIn rt .memberOf st edge) ∧
          ∀ edge, edge ∈ st'.edges .sameAs ↔ AssertedIn rt .sameAs st edge) ↔
        ∀ dataId row, (st.entities .releases).lookup dataId = some row →
          (row.data.field "extraartists").nonEmptyArray = false →
          ∀ edge ∈ asserts rt .sameAs dataId row.data, ∃ other otherRow,
            (st.entities .releases).lookup other = some otherRow ∧
            (otherRow.data.field "extraartists").nonEmptyArray = true ∧
            edge ∈ asserts rt .sameAs other otherRow.data) := by
  obtain ⟨members, hmembers, hmember⟩ :=
    serial_reconcileRelation rt .memberOf st hartists (hids .artists) (hfuel .artists)
  obtain ⟨persons, hpersons, hperson⟩ := serial_reconcileRelation rt .sameAs
    (reconciled .memberOf members st) hreleases (hids .releases) (hfuel .releases)
  refine ⟨reconciled .sameAs persons (reconciled .memberOf members st), ?_, ?_⟩
  · rw [reconcileAdditiveEdges, Program.serial_bind, hmembers]
    exact hpersons
  have hmemberOf : ∀ edge, edge ∈ (reconciled .sameAs persons (reconciled .memberOf members st)).edges
      .memberOf ↔ AssertedIn rt .memberOf st edge := by
    intro edge
    rw [edges_reconciled (by decide)]
    exact mem_reconciled.trans ((hmember edge).trans selectedIn_memberOf_iff)
  have hsameAs : ∀ edge, edge ∈ (reconciled .sameAs persons (reconciled .memberOf members st)).edges
      .sameAs ↔ SelectedIn rt .sameAs st edge := fun edge => mem_reconciled.trans (hperson edge)
  constructor
  · rintro ⟨_, hexact⟩ dataId row hrow _ edge hedge
    exact (hsameAs edge).1 ((hexact edge).2 ⟨dataId, row, hrow, hedge⟩)
  · intro hcovered
    refine ⟨hmemberOf, fun edge => (hsameAs edge).trans ⟨?_, ?_⟩⟩
    · rintro ⟨dataId, row, hrow, _, hedge⟩
      exact ⟨dataId, row, hrow, hedge⟩
    · rintro ⟨dataId, row, hrow, hedge⟩
      cases hselects : AdditiveRelation.sameAs.selects row.data with
      | true => exact ⟨dataId, row, hrow, hselects, hedge⟩
      | false => exact hcovered dataId row hrow hselects edge hedge

/-! ## A credit on a track -/

/-- A catalog of one group and one release, whose only credit with an id is on a track. -/
def trackCreditStore : Store :=
  runOperations concreteRuntime 1
    [(.persistRecord 1 .artists "1" [("id", .str "1"), ("sha256", .str "a"),
        ("members", .arr [.obj [("id", .str "2"), ("name", .str "Member")]])], true),
      (.persistRecord 1 .releases "7" [("id", .str "7"), ("sha256", .str "b"),
        ("tracklist", .arr [.obj [("position", .str "1"), ("extraartists", .arr
          [.obj [("id", .str "2"), ("name", .str "Member"), ("role", .str "Written-By")]])]])], true)]

def trackCredit : EdgeRow .sameAs := ⟨[.text "Member", .text "2"], rfl⟩

theorem sweep_is_exact_iff_trackCredit :
    ∃ st', (reconcileAdditiveEdges concreteRuntime 10).serial engine.alone trackCreditStore =
        .ok (⟨⟩, st') ∧
      (((∀ edge, edge ∈ st'.edges .memberOf ↔
          AssertedIn concreteRuntime .memberOf trackCreditStore edge) ∧
          ∀ edge, edge ∈ st'.edges .sameAs ↔
            AssertedIn concreteRuntime .sameAs trackCreditStore edge) ↔
        ∀ dataId row, (trackCreditStore.entities .releases).lookup dataId = some row →
          (row.data.field "extraartists").nonEmptyArray = false →
          ∀ edge ∈ asserts concreteRuntime .sameAs dataId row.data, ∃ other otherRow,
            (trackCreditStore.entities .releases).lookup other = some otherRow ∧
            (otherRow.data.field "extraartists").nonEmptyArray = true ∧
            edge ∈ asserts concreteRuntime .sameAs other otherRow.data) := by
  refine sweep_is_exact_iff (fun h => ?_) (fun h => ?_) (fun t => ?_) fun t => ?_
  · exact absurd (congrArg List.length h) (by decide +kernel)
  · exact absurd (congrArg List.length h) (by decide +kernel)
  · cases t <;> exact Option.isNone_iff_eq_none.1 (by decide +kernel)
  · cases t <;> decide +kernel

/-- The writer stored the row; the sweep's predicate does not select the release that asserts
    it, and the sweep deletes it. -/
theorem sweep_deletes_track_credit :
    (trackCreditStore.entities .artists).rows ≠ [] ∧ (trackCreditStore.entities .releases).rows ≠ [] ∧
    (∀ t, (trackCreditStore.entities t).lookup "" = none) ∧
    AssertedIn concreteRuntime .sameAs trackCreditStore trackCredit ∧
    trackCredit ∈ trackCreditStore.edges .sameAs ∧
    ∃ st', (reconcileAdditiveEdges concreteRuntime 10).serial engine.alone trackCreditStore =
        .ok (⟨⟩, st') ∧ trackCredit ∉ st'.edges .sameAs := by
  refine ⟨fun h => ?_, fun h => ?_, fun t => ?_, ?_, by decide +kernel, ?_⟩
  · exact absurd (congrArg List.length h) (by decide +kernel)
  · exact absurd (congrArg List.length h) (by decide +kernel)
  · cases t <;> exact Option.isNone_iff_eq_none.1 (by decide +kernel)
  · have hstored : ((trackCreditStore.entities .releases).lookup "7").any (fun row : EntityRow =>
        trackCredit ∈ (deriveStored concreteRuntime .releases "7" row.data).edges .sameAs) = true := by
      decide +kernel
    obtain ⟨row, hrow, hedge⟩ := (Option.any_eq_true _ _).1 hstored
    rw [decide_eq_true_eq] at hedge
    exact ⟨"7", row, hrow, hedge⟩
  · have hrun : ((reconcileAdditiveEdges concreteRuntime 10).serial engine.alone
        trackCreditStore).toOption.any (fun result => trackCredit ∉ result.2.edges .sameAs) = true := by
      decide +kernel
    cases hresult : (reconcileAdditiveEdges concreteRuntime 10).serial engine.alone
        trackCreditStore with
    | error e =>
      rw [hresult] at hrun
      cases hrun
    | ok result =>
      obtain ⟨⟨⟩, st'⟩ := result
      rw [hresult] at hrun
      exact ⟨st', rfl, by simpa [Except.toOption] using hrun⟩

end Tableinator
