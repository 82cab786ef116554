import Mathlib.Data.List.TakeWhile
import Tableinator.Graph.Derivation

/-! # Well-formed rows

The writer deletes a relation's rows of a document and inserts the derived ones.  That
is a replacement only where every derived row lies inside the deleted scope and no two
of them fight for one key, so both are stated here of every document there is: the
arrays it holds are unvalidated JSON, and sixteen relations are read out of them. -/

namespace Tableinator.Graph

open Relational (unique nodup_unique nodup_firstBy firstBy_key_injective)

variable {rt : Runtime} {t : DataType} {dataId : String} {data : Document} {r : EdgeRelation}

/-! ## Usable ids -/

/-- An id that names an entity: not blank, and not the "no entity" sentinel. -/
def Usable (id : String) : Prop := strip id ≠ "" ∧ id ≠ "0"

/-- Text with something in it is not stripped to nothing. -/
theorem strip_ne_empty {s : String} {c : Char} (hmem : c ∈ s.toList) (hc : isSpace c = false) :
    strip s ≠ "" := by
  intro hempty
  have hchars : stripChars s.toList = [] := by
    rw [strip] at hempty
    simpa using congrArg String.toList hempty
  rw [stripChars, List.reverse_eq_nil_iff, List.dropWhile_eq_nil_iff] at hchars
  have hfront : s.toList.dropWhile isSpace = [] := by
    cases hdrop : s.toList.dropWhile isSpace with
    | nil => rfl
    | cons d ds =>
      have hd : isSpace d = true := hchars d (by simp [hdrop])
      have hhead := List.head?_dropWhile_not isSpace s.toList
      simp [hdrop, hd] at hhead
  have hspace := List.dropWhile_eq_nil_iff.1 hfront c hmem
  simp [hc] at hspace

theorem strip_natText (n : Nat) : ∃ c ∈ n.repr.toList, isSpace c = false := by
  have hne : Nat.toDigits 10 n ≠ [] := Nat.toDigits_ne_nil
  obtain ⟨c, cs, hdigits⟩ := List.exists_cons_of_ne_nil hne
  have hc : c ∈ Nat.toDigits 10 n := by simp [hdigits]
  have hdigit := Nat.isDigit_of_mem_toDigits (by decide) (by decide) hc
  refine ⟨c, by simpa [Nat.toList_repr] using hc, isSpace_of_isDigit ?_⟩
  rw [Char.isDigit_iff_toNat] at hdigit
  simpa [isDigit] using hdigit

theorem strip_intText (n : Int) : strip (toString n) ≠ "" := by
  cases n with
  | ofNat n =>
    obtain ⟨c, hmem, hc⟩ := strip_natText n
    exact strip_ne_empty hmem hc
  | negSucc n =>
    have hsign : '-' ∈ (toString (Int.negSucc n)).toList := by
      show '-' ∈ (Int.repr (Int.negSucc n)).toList
      simp [Int.repr]
    exact strip_ne_empty hsign (by decide)

/-- Whatever `_entity_id` returns names an entity. -/
theorem usable_of_entityId {value : Json} {id : String} (h : entityId value = some id) :
    Usable id := by
  cases value with
  | int n =>
    simp only [entityId, entityId.usable] at h
    split at h
    · cases h
    · next hgood =>
      cases h
      exact ⟨strip_intText n, fun hzero => hgood (.inr hzero)⟩
  | str s =>
    simp only [entityId, entityId.usable] at h
    split at h
    · cases h
    · next hgood =>
      cases h
      exact ⟨by rw [strip_idem]; exact fun hempty => hgood (.inl hempty),
        fun hzero => hgood (.inr hzero)⟩
  | _ => cases h

theorem usable_of_elementIds {value : Json} {id : String} (h : id ∈ elementIds value) :
    Usable id := by
  simp only [elementIds, Relational.mem_unique, List.mem_filterMap] at h
  obtain ⟨element, _, hid⟩ := h
  exact usable_of_entityId hid

theorem usable_of_credits {value : Json} {credit : Credit} {id : String}
    (h : credit ∈ credits rt value) (hid : credit.artistId = some id) : Usable id := by
  simp only [credits, List.mem_filterMap] at h
  obtain ⟨element, _, hcredit⟩ := h
  simp only [creditOf] at hcredit
  split at hcredit
  · split at hcredit
    · cases hcredit
    · cases hcredit
      exact usable_of_entityId hid
  · cases hcredit

/-! ## What a derived row refers to -/

/-- The column of the artist, label, master or alias a row refers to.  A membership refers
    to whichever of its two ends is not the document. -/
def referenceColumn : EdgeRelation → Option Column
  | .byArtist | .masterByArtist | .sameAs | .trackByArtist => some .artistId
  | .onLabel => some .labelId
  | .derivedFrom => some .masterId
  | .aliasOf => some .aliasArtistId
  | _ => none

/-- The column holds an id that names an entity. -/
def EdgeRow.RefersBy (row : EdgeRow r) (column : Column) : Prop :=
  ∃ id, row.cell column = some (.text id) ∧ Usable id

theorem sameAs_usable {row : EdgeRow .sameAs}
    (h : row ∈ (deriveRelease rt dataId data).edges .sameAs) : row.RefersBy .artistId := by
  have hpersons : ∀ {found : List Credit}, row ∈ identifiedPersons found →
      (∀ credit ∈ found, ∀ id, credit.artistId = some id → Usable id) →
      row.RefersBy .artistId := by
    intro found hrow hfound
    simp only [identifiedPersons, List.mem_filterMap, Option.map_eq_some_iff] at hrow
    obtain ⟨credit, hcredit, id, hid, rfl⟩ := hrow
    exact ⟨id, rfl, hfound credit hcredit id hid⟩
  simp only [deriveRelease, Relational.mem_unique, List.mem_append] at h
  cases h with
  | inl hown => exact hpersons hown fun credit hcredit id hid => usable_of_credits hcredit hid
  | inr htracks =>
    apply hpersons htracks
    intro credit hcredit id hid
    simp only [List.mem_map, trackCredits, List.mem_flatMap, Prod.exists] at hcredit
    obtain ⟨_, _, ⟨unit, _, found, hfound, hpair⟩, rfl⟩ := hcredit
    cases hpair
    exact usable_of_credits hfound hid

theorem trackByArtist_usable {row : EdgeRow .trackByArtist}
    (h : row ∈ (deriveRelease rt dataId data).edges .trackByArtist) : row.RefersBy .artistId := by
  simp only [deriveRelease, Relational.mem_unique, List.mem_map, trackPerformers, List.mem_flatMap,
    Prod.exists] at h
  obtain ⟨unit, artist, ⟨_, _, found, hfound, hpair⟩, rfl⟩ := h
  cases hpair
  exact ⟨artist, rfl, usable_of_elementIds hfound⟩

/-- A derived row refers to no blank id and to no `0`. -/
theorem refersBy_of_derived {row : EdgeRow r} {column : Column}
    (hcolumn : referenceColumn r = some column)
    (h : row ∈ (deriveDocument rt t dataId data).edges r) : row.RefersBy column := by
  cases t with
  | artists =>
    cases r with
    | aliasOf =>
      cases hcolumn
      simp only [deriveDocument, deriveArtist, Relational.mem_unique, List.mem_map] at h
      obtain ⟨id, hid, rfl⟩ := h
      exact ⟨id, rfl, usable_of_elementIds hid⟩
    | memberOf => cases hcolumn
    | _ => simp [deriveDocument, deriveArtist] at h
  | masters =>
    cases r with
    | masterByArtist =>
      cases hcolumn
      simp only [deriveDocument, deriveMaster, List.mem_map] at h
      obtain ⟨id, hid, rfl⟩ := h
      exact ⟨id, rfl, usable_of_elementIds hid⟩
    | masterInGenre | masterInStyle => cases hcolumn
    | _ => simp [deriveDocument, deriveMaster] at h
  | labels => simp [deriveDocument, DocumentGraph.empty] at h
  | releases =>
    cases r with
    | sameAs =>
      cases hcolumn
      exact sameAs_usable h
    | trackByArtist =>
      cases hcolumn
      exact trackByArtist_usable h
    | derivedFrom =>
      cases hcolumn
      simp only [deriveDocument, deriveRelease, List.mem_map, Option.mem_toList] at h
      obtain ⟨id, hid, rfl⟩ := h
      exact ⟨id, rfl, usable_of_entityId hid⟩
    | byArtist | onLabel =>
      cases hcolumn
      simp only [deriveDocument, deriveRelease, List.mem_map] at h
      obtain ⟨id, hid, rfl⟩ := h
      exact ⟨id, rfl, usable_of_elementIds hid⟩
    | masterByArtist | aliasOf => simp [deriveDocument, deriveRelease] at h
    | _ => cases hcolumn

/-- One end of a membership is the document, the other an artist it refers to. -/
theorem membership_of_derived {row : EdgeRow .memberOf}
    (h : row ∈ (deriveDocument rt t dataId data).edges .memberOf) :
    row.RefersBy .memberArtistId ∧ row.cell .groupArtistId = some (.text dataId) ∨
      row.cell .memberArtistId = some (.text dataId) ∧ row.RefersBy .groupArtistId := by
  cases t with
  | artists =>
    simp only [deriveDocument, deriveArtist, Relational.mem_unique, List.mem_append,
      List.mem_map] at h
    cases h with
    | inl hmember =>
      obtain ⟨id, hid, rfl⟩ := hmember
      exact .inl ⟨⟨id, rfl, usable_of_elementIds hid⟩, rfl⟩
    | inr hgroup =>
      obtain ⟨id, hid, rfl⟩ := hgroup
      exact .inr ⟨rfl, id, rfl, usable_of_elementIds hid⟩
  | masters => simp [deriveDocument, deriveMaster] at h
  | labels => simp [deriveDocument, DocumentGraph.empty] at h
  | releases => simp [deriveDocument, deriveRelease] at h

/-! ## No row twice -/

theorem nodup_elementIds (value : Json) : (elementIds value).Nodup := nodup_unique _

theorem nodup_tagNames (value : Json) : (tagNames value).Nodup := nodup_unique _

theorem nodup_issuedOn : ((deriveRelease rt dataId data).edges .issuedOn).Nodup := by
  have hmedia := @mediaRows_nodup rt (mediaForRelease rt data)
  apply hmedia.of_map.map_on
  intro a ha b hb hrow
  have hmedium : a.medium = b.medium := by
    have hcells := congrArg EdgeRow.cells hrow
    simp only [MediaItem.issuedOn, List.cons.injEq, Cell.text.injEq] at hcells
    exact hcells.2.1
  exact List.inj_on_of_nodup_map hmedia ha hb hmedium

theorem nodup_creditedTo : ((deriveRelease rt dataId data).edges .creditedTo).Nodup := by
  simp only [deriveRelease, releaseCompanies]
  cases data.get "companies" with
  | obj block =>
    apply (nodup_firstBy _ _).map_on
    intro a ha b hb hrow
    have hcells := congrArg EdgeRow.cells hrow
    simp only [List.cons.injEq, Cell.text.injEq] at hcells
    exact firstBy_key_injective ha hb (by simp [hcells.2.1, hcells.2.2.1])
  | _ => exact List.nodup_nil

theorem derived_nodup : ((deriveDocument rt t dataId data).edges r).Nodup := by
  have hids : ∀ {ids : List String} {row : String → EdgeRow r}, ids.Nodup →
      (∀ a b, (row a).cells = (row b).cells → a = b) → (ids.map row).Nodup :=
    fun hids hcells => hids.map fun a b hrow => hcells a b (congrArg EdgeRow.cells hrow)
  cases t with
  | artists => cases r <;> first | exact nodup_unique _ | exact List.nodup_nil
  | masters =>
    cases r with
    | masterByArtist => exact hids (nodup_elementIds _) fun a b h => by simpa using h
    | masterInGenre | masterInStyle => exact hids (nodup_tagNames _) fun a b h => by simpa using h
    | _ => exact List.nodup_nil
  | labels => exact List.nodup_nil
  | releases =>
    cases r with
    | byArtist | onLabel => exact hids (nodup_elementIds _) fun a b h => by simpa using h
    | inGenre | inStyle => exact hids (nodup_tagNames _) fun a b h => by simpa using h
    | derivedFrom =>
      have hmaster : (entityId (data.get "master_id")).toList.Nodup := by
        cases entityId (data.get "master_id") <;> simp
      exact hids hmaster fun a b h => by simpa using h
    | issuedOn => exact nodup_issuedOn
    | creditedTo => exact nodup_creditedTo
    | creditedOn | sameAs | trackCreditedOn | trackByArtist => exact nodup_unique _
    | masterByArtist | masterInGenre | masterInStyle | memberOf | aliasOf => exact List.nodup_nil

/-! ## Every document -/

/-- The relations with a source column are those another provider writes too. -/
theorem sourceScoped_of_source {column : Column} {sourceScoped : Bool}
    (hscope : documentScope r = some (column, sourceScoped)) (hsource : .source ∈ edgeColumns r) :
    sourceScoped = true := by
  cases r with
  | creditedTo | issuedOn =>
    cases hscope
    rfl
  | _ => simp [edgeColumns] at hsource

/-- What the writer relies on when it replaces a document's rows by the derived ones. -/
structure DocumentGraph.WellFormed (graph : DocumentGraph) (dataId : String) : Prop where
  arity : ∀ r, ∀ row ∈ graph.edges r, row.cells.length = (edgeColumns r).length
  replaced : ∀ r, graph.edges r ≠ [] → r ∈ graph.replaced ∨ r = .memberOf ∨ r = .sameAs
  inScope : ∀ r ∈ graph.replaced, ∃ column sourceScoped, documentScope r = some (column, sourceScoped) ∧
    ∀ row ∈ graph.edges r, row.cell column = some (.text dataId) ∧
      (.source ∈ edgeColumns r → row.cell .source = some (.text discogsSource))
  references : ∀ r column, referenceColumn r = some column →
    ∀ row ∈ graph.edges r, row.RefersBy column
  memberships : ∀ row ∈ graph.edges .memberOf,
    row.RefersBy .memberArtistId ∧ row.cell .groupArtistId = some (.text dataId) ∨
      row.cell .memberArtistId = some (.text dataId) ∧ row.RefersBy .groupArtistId
  keys : ∀ r, ((graph.edges r).map EdgeRow.key).Nodup

theorem derived_well_formed (rt : Runtime) (t : DataType) (dataId : String) (data : Document) :
    (deriveDocument rt t dataId data).WellFormed dataId where
  arity _ row _ := row.arity
  replaced r hedges := by
    obtain ⟨row, hrow⟩ := List.exists_mem_of_ne_nil _ hedges
    by_cases hscope : documentScope r = none
    · right
      cases r <;> simp_all [documentScope]
    · exact .inl (replaced_of_derived hscope hrow)
  inScope r hreplaced := by
    have hscope := scoped_of_mem_purgeScope (mem_purgeScope_of_replaced hreplaced)
    cases hcolumn : documentScope r with
    | none => exact absurd hcolumn hscope
    | some scope =>
      obtain ⟨column, sourceScoped⟩ := scope
      refine ⟨column, sourceScoped, rfl, fun row hrow => ?_⟩
      have hnames := names_of_derived hscope hrow
      rw [EdgeRow.Names, hcolumn] at hnames
      exact ⟨hnames.1, fun hsource => hnames.2 (sourceScoped_of_source hcolumn hsource)⟩
  references r column hcolumn row hrow := refersBy_of_derived hcolumn hrow
  memberships row hrow := membership_of_derived hrow
  keys r := derived_nodup.map_on fun a ha b hb hkey => derived_key_injective ha hb hkey

example : edgeRelations.filter (fun r => EdgeRow.keyColumns r ≠ edgeColumns r) =
    [.creditedTo, .issuedOn, .trackCreditedOn, .trackByArtist] := by decide

end Tableinator.Graph
