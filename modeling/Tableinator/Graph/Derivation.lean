import Tableinator.Graph.Relations
import Tableinator.Relational.RowSet
import Tableinator.Runtime
import Tableinator.Text

/-! # Derivation

The rows one Discogs document asserts, `derive_document` and everything below it.
Three facts about them are all the writer's correctness rests on: a derived row of
a scoped relation names its document (`names_of_derived`), one document derives at
most one row for a key (`derived_key_injective`), and it derives rows only into the
relations it replaces and the two that are written additively
(`replaced_of_derived`). -/

namespace Tableinator.Graph

open Relational (unique firstBy)

/-! ## Reading values -/

/-- `_entity_id`: blank and the "no entity" sentinel `0` are dropped. -/
def entityId (value : Json) : Option String :=
  match value with
  | .int n => usable (toString n)
  | .str s => usable (strip s)
  | _ => none
where
  usable (text : String) : Option String := if text = "" ∨ text = "0" then none else some text

/-- `_element_ids`. -/
def elementIds (value : Json) : List String :=
  unique ((elements value).filterMap fun element => entityId (element.get "id"))

/-- `_tag_names`. -/
def tagNames (value : Json) : List String :=
  unique (value.items.filterMap fun name => name.str?.filter (· ≠ ""))

/-- `_text`: a trimmed non-empty string. -/
def text (value : Json) : Option String := (value.str?.map strip).filter (· ≠ "")

/-- `_DIGITS.fullmatch`. -/
def isDigits (s : String) : Bool := s ≠ "" && s.toList.all isDigit

/-- `_discogs_id`: a positive whole id as text. -/
def discogsId (value : Json) : Option String :=
  match value with
  | .int n => if 1 ≤ n then some (toString n) else none
  | .str s => if isDigits (strip s) && 1 ≤ natOfDigits (strip s).toList then some (strip s) else none
  | _ => none

/-- `_xmltodict_array`: the array the raw wrapper holds under `key`. -/
def xmltodictArray (container : Json) (key : String) : List Json :=
  match container with
  | .arr items => items
  | .obj fields =>
    match Document.get fields key with
    | .arr items => items
    | .null => []
    -- the wrapper of one element holds the element itself
    | inner => [inner]
  | .null => []
  | scalar => [scalar]

/-! ## Credits -/

structure Credit where
  name : String
  role : String
  artistId : Option String

section

variable (rt : Runtime)

/-- One entry of `_credits`: a name that strips to nothing is skipped. -/
def creditOf (element : Document) : Option Credit :=
  match element.get "name", element.get "role" with
  | .str name, .str role =>
    if name = "" ∨ role = "" ∨ rt.stripPersonName name = "" then none
    else some ⟨rt.stripPersonName name, role, entityId (element.get "id")⟩
  | _, _ => none

/-- `_credits`. -/
def credits (value : Json) : List Credit := (elements value).filterMap (creditOf rt)

/-- A track, or a sub-track, under the two ordinals that key its rows. -/
structure TrackUnit where
  trackOrdinal : Nat
  subTrackOrdinal : Nat
  track : Document

/-- The mapping entries of an `enumerate(…, start=1)`. -/
def enumerated (items : List Json) : List (Document × Nat) :=
  (items.zipIdx 1).filterMap fun (item, ordinal) => item.mapping?.map fun track => (track, ordinal)

/-- The walk `_track_credits` and `_track_performers` share: each track, then its
    sub-tracks. -/
def trackUnits (tracklist : Json) : List TrackUnit :=
  (enumerated (xmltodictArray tracklist "track")).flatMap fun (track, ordinal) =>
    ⟨ordinal, 0, track⟩ ::
      (enumerated (xmltodictArray (track.get "sub_tracks") "track")).map fun (sub, subOrdinal) =>
        ⟨ordinal, subOrdinal, sub⟩

/-- `_track_position`: the raw label, kept for display. -/
def trackPosition (track : Document) : Option String := (track.get "position").str?

/-- `_track_credits`. -/
def trackCredits (tracklist : Json) : List (TrackUnit × Credit) :=
  (trackUnits tracklist).flatMap fun unit =>
    (credits rt (.arr (xmltodictArray (unit.track.get "extraartists") "artist"))).map (unit, ·)

/-- `_track_performers`. -/
def trackPerformers (tracklist : Json) : List (TrackUnit × String) :=
  (trackUnits tracklist).flatMap fun unit =>
    (elementIds (.arr (xmltodictArray (unit.track.get "artists") "artist"))).map (unit, ·)

/-! ## Media and companies -/

structure MediaItem where
  medium : String
  family : String
  label : String
  qty : Int

/-- `_quantity`. -/
def quantity (item : Document) : Int :=
  match item.get "qty" with
  | .int n => if n < 1 then 1 else n
  | _ => 1

/-- One iteration of `_media_rows`: a repeated medium adds to the quantity of its row. -/
def addMedium (rows : List MediaItem) (item : Document) : List MediaItem :=
  match item.get "medium", item.get "family" with
  | .str medium, .str family =>
    if medium = "" ∨ family = "" then rows
    else if medium ∈ rows.map (·.medium) then
      rows.map fun row =>
        if row.medium = medium then { row with qty := row.qty + quantity item } else row
    -- a medium the catalog does not name is its own label
    else rows ++ [⟨medium, family, (rt.mediumLabel medium).getD medium, quantity item⟩]
  | _, _ => rows

/-- `_media_rows`. -/
def mediaRows (block : Document) : List MediaItem :=
  (elements (block.get "items")).foldl (addMedium rt) []

structure CompanyRow where
  companyId : String
  name : String
  role : String
  roleCategory : String

/-- `company_identity`. -/
def companyIdentity (item : Document) : Option String :=
  match discogsId (item.get "discogs_id") with
  | some discogsId => some discogsId
  -- without a Discogs id the folded name stands for the company
  | none => (text (item.get "name")).map fun name =>
      "name:" ++ rt.casefold (" ".intercalate (splitWords name))

def companyRow (item : Document) : Option CompanyRow := do
  let role ← text (item.get "role")
  let companyId ← companyIdentity rt item
  return ⟨companyId, (text (item.get "name")).getD companyId, role,
    (text (item.get "role_category")).getD "other"⟩

/-- `_company_rows`: the first entry of every company and role. -/
def companyRows (block : Document) : List CompanyRow :=
  firstBy (fun row => (row.companyId, row.role))
    ((elements (block.get "items")).filterMap (companyRow rt))

/-- `_discogs_label_id`. -/
def discogsLabelId (companyId : String) : Option String :=
  if isDigits companyId then some companyId else none

/-! ## Documents -/

/-- `derive_artist`. -/
def deriveArtist (dataId : String) (data : Document) : DocumentGraph where
  vertices := fun _ => []
  edges
    | .memberOf => unique (
        (elementIds (data.get "members")).map (fun member => ⟨[.text member, .text dataId], rfl⟩) ++
        (elementIds (data.get "groups")).map (fun group => ⟨[.text dataId, .text group], rfl⟩))
    | .aliasOf => unique (
        (elementIds (data.get "aliases")).map fun other => ⟨[.text other, .text dataId], rfl⟩)
    | _ => []
  -- a membership is asserted from both ends, so no document owns its rows
  replaced := {.aliasOf}

/-- `derive_master`. -/
def deriveMaster (dataId : String) (data : Document) : DocumentGraph where
  vertices
    | .genre => (tagNames (data.get "genres")).map fun name => ⟨[.text name], rfl⟩
    | .style => (tagNames (data.get "styles")).map fun name => ⟨[.text name], rfl⟩
    | _ => []
  edges
    | .masterByArtist =>
      (elementIds (data.get "artists")).map fun artist => ⟨[.text dataId, .text artist], rfl⟩
    | .masterInGenre =>
      (tagNames (data.get "genres")).map fun name => ⟨[.text dataId, .text name], rfl⟩
    | .masterInStyle =>
      (tagNames (data.get "styles")).map fun name => ⟨[.text dataId, .text name], rfl⟩
    | _ => []
  replaced := {.masterByArtist, .masterInGenre, .masterInStyle}

/-- The company entries of a release; a release without a `companies` mapping is silent. -/
def releaseCompanies (data : Document) : List CompanyRow :=
  match data.get "companies" with
  | .obj block => companyRows rt block
  | _ => []

/-- The persons a release identifies with an artist: its own credits, then its tracks'. -/
def identifiedPersons (found : List Credit) : List (EdgeRow .sameAs) :=
  found.filterMap fun credit =>
    credit.artistId.map fun artist => ⟨[.text credit.name, .text artist], rfl⟩

/-- The row that says a release was issued on a medium. -/
def MediaItem.issuedOn (dataId : String) (item : MediaItem) : EdgeRow .issuedOn :=
  ⟨[.text dataId, .text item.medium, .text discogsSource, .bigint item.qty], rfl⟩

/-- `derive_release`. -/
def deriveRelease (dataId : String) (data : Document) : DocumentGraph where
  vertices
    | .genre => (tagNames (data.get "genres")).map fun name => ⟨[.text name], rfl⟩
    | .style => (tagNames (data.get "styles")).map fun name => ⟨[.text name], rfl⟩
    | .person => unique (
        (credits rt (data.get "extraartists")).map (fun credit => ⟨[.text credit.name], rfl⟩) ++
        (trackCredits rt (data.get "tracklist")).map fun (_, credit) => ⟨[.text credit.name], rfl⟩)
    | .mediaFamily => unique (
        (mediaRows rt (mediaForRelease rt data)).map fun item => ⟨[.text item.family], rfl⟩)
    | .medium => (mediaRows rt (mediaForRelease rt data)).map fun item =>
        ⟨[.text item.medium, .text item.family, .text item.label], rfl⟩
    | .company => (releaseCompanies rt data).map fun row =>
        ⟨[.text row.companyId, .text row.name, Cell.ofOption (discogsLabelId row.companyId)], rfl⟩
  edges
    | .byArtist =>
      (elementIds (data.get "artists")).map fun artist => ⟨[.text dataId, .text artist], rfl⟩
    | .onLabel =>
      (elementIds (data.get "labels")).map fun label => ⟨[.text dataId, .text label], rfl⟩
    | .derivedFrom =>
      (entityId (data.get "master_id")).toList.map fun master => ⟨[.text dataId, .text master], rfl⟩
    | .inGenre => (tagNames (data.get "genres")).map fun name => ⟨[.text dataId, .text name], rfl⟩
    | .inStyle => (tagNames (data.get "styles")).map fun name => ⟨[.text dataId, .text name], rfl⟩
    | .creditedOn => unique (
        (credits rt (data.get "extraartists")).map fun credit =>
          ⟨[.text credit.name, .text dataId, .text credit.role], rfl⟩)
    | .sameAs => unique (identifiedPersons (credits rt (data.get "extraartists")) ++
        identifiedPersons ((trackCredits rt (data.get "tracklist")).map Prod.snd))
    | .issuedOn => (mediaRows rt (mediaForRelease rt data)).map (MediaItem.issuedOn dataId)
    | .creditedTo => (releaseCompanies rt data).map fun row =>
        ⟨[.text dataId, .text row.companyId, .text row.role, .text row.roleCategory,
          .text discogsSource], rfl⟩
    | .trackCreditedOn => unique (
        (trackCredits rt (data.get "tracklist")).map fun (unit, credit) =>
          ⟨[.text credit.name, .text dataId, .bigint unit.trackOrdinal,
            .bigint unit.subTrackOrdinal, Cell.ofOption (trackPosition unit.track),
            .text credit.role], rfl⟩)
    | .trackByArtist => unique (
        (trackPerformers (data.get "tracklist")).map fun (unit, artist) =>
          ⟨[.text dataId, .bigint unit.trackOrdinal, .bigint unit.subTrackOrdinal,
            Cell.ofOption (trackPosition unit.track), .text artist], rfl⟩)
    | _ => []
  replaced := {.byArtist, .onLabel, .derivedFrom, .inGenre, .inStyle, .creditedOn, .issuedOn,
      .trackCreditedOn, .trackByArtist} ∪
    -- a release without a companies block keeps the credits it has
    if (data.get "companies").mapping?.isSome then {.creditedTo} else ∅

/-- `derive_document`: a label asserts nothing the loader stores. -/
def deriveDocument (dataType : DataType) (dataId : String) (data : Document) : DocumentGraph :=
  match dataType with
  | .artists => deriveArtist dataId data
  | .masters => deriveMaster dataId data
  | .releases => deriveRelease rt dataId data
  | .labels => .empty

end

/-! ## The scope of derived rows -/

variable {rt : Runtime} {t : DataType} {dataId : String} {data : Document} {r : EdgeRelation}

/-- A derived row of a scoped relation names its document. -/
theorem names_of_derived {row : EdgeRow r} (hscope : documentScope r ≠ none)
    (h : row ∈ (deriveDocument rt t dataId data).edges r) : row.Names dataId := by
  cases t with
  | artists =>
    cases r <;> simp [deriveDocument, deriveArtist] at h
    case memberOf => exact absurd rfl hscope
    case aliasOf =>
      obtain ⟨other, _, rfl⟩ := h
      exact ⟨rfl, fun hsource => nomatch hsource⟩
  | masters =>
    cases r <;> simp [deriveDocument, deriveMaster] at h
    all_goals
      obtain ⟨other, _, rfl⟩ := h
      exact ⟨rfl, fun hsource => nomatch hsource⟩
  | labels => simp [deriveDocument, DocumentGraph.empty] at h
  | releases =>
    cases r <;> simp [deriveDocument, deriveRelease] at h
    case sameAs => exact absurd rfl hscope
    case trackCreditedOn =>
      obtain ⟨unit, credit, _, rfl⟩ := h
      exact ⟨rfl, fun hsource => nomatch hsource⟩
    case trackByArtist =>
      obtain ⟨unit, artist, _, rfl⟩ := h
      exact ⟨rfl, fun hsource => nomatch hsource⟩
    all_goals
      obtain ⟨other, _, rfl⟩ := h
      exact ⟨rfl, fun hsource => by first | rfl | cases hsource⟩

/-- Rows are derived only into relations the document replaces, the additive two apart. -/
theorem replaced_of_derived {row : EdgeRow r} (hscope : documentScope r ≠ none)
    (h : row ∈ (deriveDocument rt t dataId data).edges r) :
    r ∈ (deriveDocument rt t dataId data).replaced := by
  cases t with
  | artists => cases r <;> simp_all [deriveDocument, deriveArtist, documentScope]
  | masters => cases r <;> simp_all [deriveDocument, deriveMaster]
  | labels => simp [deriveDocument, DocumentGraph.empty] at h
  | releases =>
    cases r with
    | creditedTo =>
      simp only [deriveDocument, deriveRelease, releaseCompanies] at h ⊢
      split at h
      · next block hblock => simp [hblock, Json.mapping?]
      · simp at h
    | _ => simp_all [deriveDocument, deriveRelease, documentScope]

theorem mem_purgeScope_of_replaced (h : r ∈ (deriveDocument rt t dataId data).replaced) :
    r ∈ purgeScope t := by
  cases t with
  | artists => simp_all [deriveDocument, deriveArtist, purgeScope]
  | masters => simp_all [deriveDocument, deriveMaster, purgeScope]
  | labels => simp [deriveDocument, DocumentGraph.empty] at h
  | releases =>
    simp only [deriveDocument, deriveRelease] at h
    split at h <;> (cases r <;> simp_all [purgeScope])

/-! ## One row for a key -/

theorem mem_enumerated {items : List Json} {track : Document} {ordinal : Nat}
    (h : (track, ordinal) ∈ enumerated items) : items[ordinal - 1]? = some (.obj track) := by
  simp only [enumerated, List.mem_filterMap, Option.map_eq_some_iff, Prod.mk.injEq,
    Prod.exists] at h
  obtain ⟨item, index, hmem, found, hfound, rfl, rfl⟩ := h
  rw [List.mk_mem_zipIdx_iff_le_and_getElem?_sub] at hmem
  cases item with
  | obj fields =>
    cases hfound
    exact hmem.2
  | _ => cases hfound

/-- The two ordinals name one track. -/
theorem trackUnits_injective {tracklist : Json} {a b : TrackUnit} (ha : a ∈ trackUnits tracklist)
    (hb : b ∈ trackUnits tracklist) (htrack : a.trackOrdinal = b.trackOrdinal)
    (hsub : a.subTrackOrdinal = b.subTrackOrdinal) : a = b := by
  have hordinal : ∀ {items : List Json} {track : Document} {ordinal : Nat},
      (track, ordinal) ∈ enumerated items → 1 ≤ ordinal := by
    intro items track ordinal h
    simp only [enumerated, List.mem_filterMap, Option.map_eq_some_iff, Prod.mk.injEq,
      Prod.exists] at h
    obtain ⟨item, index, hmem, found, _, rfl, rfl⟩ := h
    exact (List.mk_mem_zipIdx_iff_le_and_getElem?_sub.1 hmem).1
  simp only [trackUnits, List.mem_flatMap, List.mem_cons, List.mem_map, Prod.exists] at ha hb
  obtain ⟨track, ordinal, hmem, ha⟩ := ha
  obtain ⟨track', ordinal', hmem', hb⟩ := hb
  -- a track has no second ordinal and a sub-track starts at 1, so the two never meet
  have hsame : ∀ {items : List Json} {x y : Document} {n m : Nat}, (x, n) ∈ enumerated items →
      (y, m) ∈ enumerated items → n = m → x = y := by
    rintro items x y n _ hx hy rfl
    simpa using (mem_enumerated hx).symm.trans (mem_enumerated hy)
  rcases ha with rfl | ⟨sub, subOrdinal, hsubmem, rfl⟩ <;>
    rcases hb with rfl | ⟨sub', subOrdinal', hsubmem', rfl⟩
  · simp only at htrack hsub
    subst htrack
    rw [hsame hmem hmem' rfl]
  · have := hordinal hsubmem'
    simp only at hsub
    omega
  · have := hordinal hsubmem
    simp only at hsub
    omega
  · simp only at htrack hsub
    subst htrack
    have := hsame hmem hmem' rfl
    subst this
    subst hsub
    rw [hsame hsubmem hsubmem' rfl]

theorem addMedium_nodup {rows : List MediaItem} (h : (rows.map (·.medium)).Nodup)
    (item : Document) : ((addMedium rt rows item).map (·.medium)).Nodup := by
  unfold addMedium
  split
  · split
    · exact h
    · split
      · next medium _ _ _ _ _ =>
        -- a repeated medium changes a quantity and no name
        have hmap : (rows.map fun row => if row.medium = medium then
            { row with qty := row.qty + quantity item } else row).map (·.medium) =
            rows.map (·.medium) := by
          rw [List.map_map]
          refine List.map_congr_left fun row _ => ?_
          simp only [Function.comp]
          split <;> rfl
        rw [hmap]
        exact h
      · next hfresh =>
        simp only [List.map_append, List.map_cons, List.map_nil]
        rw [List.nodup_append_comm]
        exact List.nodup_cons.2 ⟨hfresh, h⟩
  · exact h

/-- A release is issued on a medium once, whatever its format entries repeat. -/
theorem mediaRows_nodup (block : Document) : ((mediaRows rt block).map (·.medium)).Nodup := by
  have hloop : ∀ (items : List Document) (rows : List MediaItem), (rows.map (·.medium)).Nodup →
      ((items.foldl (addMedium rt) rows).map (·.medium)).Nodup := by
    intro items
    induction items with
    | nil => exact fun _ h => h
    | cons item items ih => exact fun rows h => ih _ (addMedium_nodup h item)
  exact hloop _ _ List.nodup_nil

theorem ordinal_eq {m n : Nat} (h : some (Cell.bigint m) = some (Cell.bigint n)) : m = n := by
  simp only [Option.some.injEq, Cell.bigint.injEq] at h
  omega

theorem issuedOn_key_injective {a b : EdgeRow .issuedOn}
    (ha : a ∈ (deriveRelease rt dataId data).edges .issuedOn)
    (hb : b ∈ (deriveRelease rt dataId data).edges .issuedOn) (hkey : a.key = b.key) : a = b := by
  obtain ⟨item, hitem, rfl⟩ := List.mem_map.1 ha
  obtain ⟨item', hitem', rfl⟩ := List.mem_map.1 hb
  have hmedium : some (Cell.text item.medium) = some (Cell.text item'.medium) :=
    EdgeRow.cell_eq_of_key .mediumId rfl hkey
  have hsame : item = item' := List.inj_on_of_nodup_map (mediaRows_nodup _) hitem hitem'
    (by simpa using hmedium)
  rw [hsame]

theorem creditedTo_key_injective {a b : EdgeRow .creditedTo}
    (ha : a ∈ (deriveRelease rt dataId data).edges .creditedTo)
    (hb : b ∈ (deriveRelease rt dataId data).edges .creditedTo) (hkey : a.key = b.key) : a = b := by
  obtain ⟨row, hrow, rfl⟩ := List.mem_map.1 ha
  obtain ⟨row', hrow', rfl⟩ := List.mem_map.1 hb
  have hcompany : some (Cell.text row.companyId) = some (Cell.text row'.companyId) :=
    EdgeRow.cell_eq_of_key .companyId rfl hkey
  have hrole : some (Cell.text row.role) = some (Cell.text row'.role) :=
    EdgeRow.cell_eq_of_key .role rfl hkey
  simp only [releaseCompanies] at hrow hrow'
  cases hcompanies : data.get "companies" with
  | obj block =>
    simp only [hcompanies] at hrow hrow'
    have hpair : (row.companyId, row.role) = (row'.companyId, row'.role) := by simp_all
    rw [Relational.firstBy_key_injective hrow hrow' hpair]
  | _ => simp [hcompanies] at hrow

theorem unit_mem_of_trackCredits {tracklist : Json} {unit : TrackUnit} {credit : Credit}
    (h : (unit, credit) ∈ trackCredits rt tracklist) : unit ∈ trackUnits tracklist := by
  simp only [trackCredits, List.mem_flatMap, List.mem_map, Prod.mk.injEq] at h
  obtain ⟨unit', hmem, _, _, rfl, _⟩ := h
  exact hmem

theorem unit_mem_of_trackPerformers {tracklist : Json} {unit : TrackUnit} {artist : String}
    (h : (unit, artist) ∈ trackPerformers tracklist) : unit ∈ trackUnits tracklist := by
  simp only [trackPerformers, List.mem_flatMap, List.mem_map, Prod.mk.injEq] at h
  obtain ⟨unit', hmem, _, _, rfl, _⟩ := h
  exact hmem

theorem trackCreditedOn_key_injective {a b : EdgeRow .trackCreditedOn}
    (ha : a ∈ (deriveRelease rt dataId data).edges .trackCreditedOn)
    (hb : b ∈ (deriveRelease rt dataId data).edges .trackCreditedOn) (hkey : a.key = b.key) :
    a = b := by
  simp only [deriveRelease, Relational.mem_unique, List.mem_map, Prod.exists] at ha hb
  obtain ⟨unit, credit, hmem, rfl⟩ := ha
  obtain ⟨unit', credit', hmem', rfl⟩ := hb
  have htrack : some (Cell.bigint unit.trackOrdinal) = some (Cell.bigint unit'.trackOrdinal) :=
    EdgeRow.cell_eq_of_key .trackOrdinal rfl hkey
  have hsub : some (Cell.bigint unit.subTrackOrdinal) = some (Cell.bigint unit'.subTrackOrdinal) :=
    EdgeRow.cell_eq_of_key .subTrackOrdinal rfl hkey
  have hname : some (Cell.text credit.name) = some (Cell.text credit'.name) :=
    EdgeRow.cell_eq_of_key .personName rfl hkey
  have hrole : some (Cell.text credit.role) = some (Cell.text credit'.role) :=
    EdgeRow.cell_eq_of_key .role rfl hkey
  have hunit : unit = unit' := trackUnits_injective (unit_mem_of_trackCredits hmem)
    (unit_mem_of_trackCredits hmem') (ordinal_eq htrack) (ordinal_eq hsub)
  simp_all

theorem trackByArtist_key_injective {a b : EdgeRow .trackByArtist}
    (ha : a ∈ (deriveRelease rt dataId data).edges .trackByArtist)
    (hb : b ∈ (deriveRelease rt dataId data).edges .trackByArtist) (hkey : a.key = b.key) :
    a = b := by
  simp only [deriveRelease, Relational.mem_unique, List.mem_map, Prod.exists] at ha hb
  obtain ⟨unit, artist, hmem, rfl⟩ := ha
  obtain ⟨unit', artist', hmem', rfl⟩ := hb
  have htrack : some (Cell.bigint unit.trackOrdinal) = some (Cell.bigint unit'.trackOrdinal) :=
    EdgeRow.cell_eq_of_key .trackOrdinal rfl hkey
  have hsub : some (Cell.bigint unit.subTrackOrdinal) = some (Cell.bigint unit'.subTrackOrdinal) :=
    EdgeRow.cell_eq_of_key .subTrackOrdinal rfl hkey
  have hartist : some (Cell.text artist) = some (Cell.text artist') :=
    EdgeRow.cell_eq_of_key .artistId rfl hkey
  have hunit : unit = unit' := trackUnits_injective (unit_mem_of_trackPerformers hmem)
    (unit_mem_of_trackPerformers hmem') (ordinal_eq htrack) (ordinal_eq hsub)
  simp_all

/-- One document derives at most one row for a key. -/
theorem derived_key_injective {a b : EdgeRow r} (ha : a ∈ (deriveDocument rt t dataId data).edges r)
    (hb : b ∈ (deriveDocument rt t dataId data).edges r) (hkey : a.key = b.key) : a = b := by
  cases t with
  | artists => cases r <;> first | exact EdgeRow.key_injective (by decide) hkey | cases ha
  | masters => cases r <;> first | exact EdgeRow.key_injective (by decide) hkey | cases ha
  | labels => cases ha
  | releases =>
    cases r with
    | issuedOn => exact issuedOn_key_injective ha hb hkey
    | creditedTo => exact creditedTo_key_injective ha hb hkey
    | trackCreditedOn => exact trackCreditedOn_key_injective ha hb hkey
    | trackByArtist => exact trackByArtist_key_injective ha hb hkey
    | _ => exact EdgeRow.key_injective (by decide) hkey

end Tableinator.Graph
