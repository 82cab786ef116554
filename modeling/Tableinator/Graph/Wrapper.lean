import Mathlib.Data.List.Forall2
import Tableinator.Graph.Derivation

/-! # Wrapper shapes

The dump's XML keeps one child as a bare object and several as an array, and a missing
element as nothing at all.  A release is read through three levels of such wrappers, and
none of its rows says which shapes they had: tracklists that unwrap to the same elements,
at every level, derive the same rows (`derivation_ignores_wrappers`). -/

namespace Tableinator.Graph

/-! ## Equivalent values -/

/-- The shapes of one element list under a wrapper key: an array, an object that holds it or
    its only element, nothing for no element, and a bare scalar for itself. -/
inductive Unwraps (key : String) : Json → List Json → Prop where
  | array (items : List Json) : Unwraps key (.arr items) items
  | wrapped {fields : Document} {items : List Json} (h : fields.lookup key = some (.arr items)) :
      Unwraps key (.obj fields) items
  | single {fields : Document} {item : Json} (h : fields.lookup key = some item)
      (hnull : item ≠ .null) (harray : ∀ items, item ≠ .arr items) :
      Unwraps key (.obj fields) [item]
  | null : Unwraps key .null []
  | missing {fields : Document} (h : fields.lookup key = none) : Unwraps key (.obj fields) []
  | empty {fields : Document} (h : fields.lookup key = some .null) : Unwraps key (.obj fields) []
  | scalar {value : Json} (hnull : value ≠ .null) (harray : ∀ items, value ≠ .arr items)
      (hobject : ∀ fields, value ≠ .obj fields) : Unwraps key value [value]

/-- Two values that unwrap to the same elements. -/
def SameElements (key : String) (a b : Json) : Prop :=
  ∃ items, Unwraps key a items ∧ Unwraps key b items

/-- The fields of a track the dump wraps. -/
def wrappedFields : List String := ["sub_tracks", "extraartists", "artists"]

/-- Two elements of a tracklist that differ in the wrappers inside them alone, at any depth. -/
inductive SameTrack : Json → Json → Prop where
  | same (value : Json) : SameTrack value value
  | rewrapped {a b : Document} {subs subs' : List Json}
      (hfields : ∀ field, field ∉ wrappedFields → a.get field = b.get field)
      (hcredits : SameElements "artist" (a.get "extraartists") (b.get "extraartists"))
      (hperformers : SameElements "artist" (a.get "artists") (b.get "artists"))
      (hsubs : Unwraps "track" (a.get "sub_tracks") subs)
      (hsubs' : Unwraps "track" (b.get "sub_tracks") subs')
      (h : List.Forall₂ SameTrack subs subs') : SameTrack (.obj a) (.obj b)

/-- Two release documents that differ in the wrappers of their tracklists alone. -/
structure SameRelease (a b : Document) : Prop where
  fields : ∀ field, field ≠ "tracklist" → a.get field = b.get field
  tracklist : ∃ tracks tracks', Unwraps "track" (a.get "tracklist") tracks ∧
    Unwraps "track" (b.get "tracklist") tracks' ∧ List.Forall₂ SameTrack tracks tracks'

/-! ## Unwrapping -/

variable {key : String}

/-- `_xmltodict_array` computes the elements of every shape. -/
theorem xmltodictArray_of_unwraps {value : Json} {items : List Json} (h : Unwraps key value items) :
    xmltodictArray value key = items := by
  cases h with
  | array | null => rfl
  | wrapped h | missing h | empty h => simp [xmltodictArray, Document.get, h]
  | single h hnull harray =>
    simp only [xmltodictArray, Document.get, h, Option.getD_some]
  | scalar hnull harray hobject =>
    cases value with
    | null => exact absurd rfl hnull
    | arr items => exact absurd rfl (harray items)
    | obj fields => exact absurd rfl (hobject fields)
    | _ => rfl

theorem xmltodictArray_eq {a b : Json} (h : SameElements key a b) :
    xmltodictArray a key = xmltodictArray b key := by
  obtain ⟨items, ha, hb⟩ := h
  rw [xmltodictArray_of_unwraps ha, xmltodictArray_of_unwraps hb]

/-! ## Tracks -/

/-- The two tracks derive the same rows under the same ordinals. -/
structure TrackUnit.Agrees (a b : TrackUnit) : Prop where
  trackOrdinal : a.trackOrdinal = b.trackOrdinal
  subTrackOrdinal : a.subTrackOrdinal = b.subTrackOrdinal
  position : trackPosition a.track = trackPosition b.track
  credits : xmltodictArray (a.track.get "extraartists") "artist" =
    xmltodictArray (b.track.get "extraartists") "artist"
  performers : xmltodictArray (a.track.get "artists") "artist" =
    xmltodictArray (b.track.get "artists") "artist"

theorem agrees_of_sameTrack {a b : Document} (h : SameTrack (.obj a) (.obj b)) (n m : Nat) :
    TrackUnit.Agrees ⟨n, m, a⟩ ⟨n, m, b⟩ := by
  cases h with
  | same => exact ⟨rfl, rfl, rfl, rfl, rfl⟩
  | rewrapped hfields hcredits hperformers _ _ _ =>
    have hposition : a.get "position" = b.get "position" := hfields "position" (by decide)
    exact ⟨rfl, rfl, by simp only [trackPosition, hposition], xmltodictArray_eq hcredits,
      xmltodictArray_eq hperformers⟩

/-- A skipped element is skipped on both sides, so the ordinals keep step. -/
theorem enumerated_of_sameTrack {items items' : List Json} (h : List.Forall₂ SameTrack items items') :
    List.Forall₂ (fun a b => SameTrack (.obj a.1) (.obj b.1) ∧ a.2 = b.2) (enumerated items)
      (enumerated items') := by
  have hcount : ∀ start, List.Forall₂ (fun a b => SameTrack (.obj a.1) (.obj b.1) ∧ a.2 = b.2)
      ((items.zipIdx start).filterMap fun entry =>
        entry.1.mapping?.map fun track => (track, entry.2))
      ((items'.zipIdx start).filterMap fun entry =>
        entry.1.mapping?.map fun track => (track, entry.2)) := by
    induction h with
    | nil => exact fun _ => .nil
    | @cons item _ _ _ hhead _ ih =>
      intro start
      simp only [List.zipIdx_cons, List.filterMap_cons]
      have hrest := ih (start + 1)
      cases hhead with
      | same =>
        cases item with
        | obj track => exact .cons ⟨.same _, rfl⟩ hrest
        | _ => exact hrest
      | rewrapped hfields hcredits hperformers hsubs hsubs' h =>
        exact .cons ⟨.rewrapped hfields hcredits hperformers hsubs hsubs' h, rfl⟩ hrest
  exact hcount 1

theorem subTracks_of_sameTrack {a b : Document} (h : SameTrack (.obj a) (.obj b)) :
    List.Forall₂ SameTrack (xmltodictArray (a.get "sub_tracks") "track")
      (xmltodictArray (b.get "sub_tracks") "track") := by
  cases h with
  | same => exact List.forall₂_same.2 fun value _ => .same value
  | rewrapped _ _ _ hsubs hsubs' h =>
    rw [xmltodictArray_of_unwraps hsubs, xmltodictArray_of_unwraps hsubs']
    exact h

theorem trackUnits_agree {a b : Document} (h : SameRelease a b) :
    List.Forall₂ TrackUnit.Agrees (trackUnits (a.get "tracklist"))
      (trackUnits (b.get "tracklist")) := by
  obtain ⟨tracks, tracks', htracks, htracks', hsame⟩ := h.tracklist
  rw [← xmltodictArray_of_unwraps htracks, ← xmltodictArray_of_unwraps htracks'] at hsame
  refine List.rel_flatMap (enumerated_of_sameTrack hsame) ?_
  rintro ⟨track, n⟩ ⟨track', n'⟩ ⟨htrack, hn⟩
  have hn : n = n' := hn
  subst hn
  refine .cons (agrees_of_sameTrack htrack n 0) ?_
  refine List.rel_map ?_ (enumerated_of_sameTrack (subTracks_of_sameTrack htrack))
  rintro ⟨sub, m⟩ ⟨sub', m'⟩ ⟨hsub, hm⟩
  have hm : m = m' := hm
  subst hm
  exact agrees_of_sameTrack hsub n m

/-! ## Rows -/

variable {rt : Runtime} {dataId : String} {a b : Document} {β : Type}

theorem flatMap_of_agrees {f : TrackUnit → List β} (h : SameRelease a b)
    (hf : ∀ u v, TrackUnit.Agrees u v → f u = f v) :
    (trackUnits (a.get "tracklist")).flatMap f = (trackUnits (b.get "tracklist")).flatMap f := by
  have hrows : List.Forall₂ Eq ((trackUnits (a.get "tracklist")).flatMap f)
      ((trackUnits (b.get "tracklist")).flatMap f) := by
    refine List.rel_flatMap (trackUnits_agree h) fun u v huv => ?_
    rw [hf u v huv, List.forall₂_eq_eq_eq]
  rwa [List.forall₂_eq_eq_eq] at hrows

/-- Rows made of a track's ordinals, its position and one of its credits. -/
theorem trackCredits_map {row : TrackUnit × Credit → β} (h : SameRelease a b)
    (hrow : ∀ u v credit, TrackUnit.Agrees u v → row (u, credit) = row (v, credit)) :
    (trackCredits rt (a.get "tracklist")).map row =
      (trackCredits rt (b.get "tracklist")).map row := by
  simp only [trackCredits, List.map_flatMap, List.map_map]
  refine flatMap_of_agrees h fun u v huv => ?_
  rw [huv.credits]
  exact List.map_congr_left fun credit _ => hrow u v credit huv

theorem trackPerformers_map {row : TrackUnit × String → β} (h : SameRelease a b)
    (hrow : ∀ u v artist, TrackUnit.Agrees u v → row (u, artist) = row (v, artist)) :
    (trackPerformers (a.get "tracklist")).map row =
      (trackPerformers (b.get "tracklist")).map row := by
  simp only [trackPerformers, List.map_flatMap, List.map_map]
  refine flatMap_of_agrees h fun u v huv => ?_
  rw [huv.performers]
  exact List.map_congr_left fun artist _ => hrow u v artist huv

/-- A release derives the same rows however its tracklist is wrapped. -/
theorem derivation_ignores_wrappers (rt : Runtime) (dataId : String) (a b : Document)
    (h : SameRelease a b) :
    deriveDocument rt .releases dataId a = deriveDocument rt .releases dataId b := by
  have hgenres := h.fields "genres" (by decide)
  have hstyles := h.fields "styles" (by decide)
  have hcredits := h.fields "extraartists" (by decide)
  have hartists := h.fields "artists" (by decide)
  have hlabels := h.fields "labels" (by decide)
  have hmaster := h.fields "master_id" (by decide)
  have hcompanies := h.fields "companies" (by decide)
  have hmedia : mediaForRelease rt a = mediaForRelease rt b := by
    simp only [mediaForRelease, h.fields "media" (by decide), h.fields "formats" (by decide)]
  have hreleaseCompanies : releaseCompanies rt a = releaseCompanies rt b := by
    simp only [releaseCompanies, hcompanies]
  -- Four relations read the tracklist, through its credits and its performers alone.
  have hvertices : (deriveRelease rt dataId a).vertices = (deriveRelease rt dataId b).vertices := by
    funext v
    cases v with
    | person =>
      simp only [deriveRelease, hcredits]
      rw [trackCredits_map h]
      exact fun _ _ _ _ => rfl
    | _ => simp only [deriveRelease, hgenres, hstyles, hmedia, hreleaseCompanies]
  have hedges : (deriveRelease rt dataId a).edges = (deriveRelease rt dataId b).edges := by
    funext r
    cases r with
    | sameAs =>
      simp only [deriveRelease, hcredits]
      rw [trackCredits_map h]
      exact fun _ _ _ _ => rfl
    | trackCreditedOn =>
      simp only [deriveRelease]
      rw [trackCredits_map h]
      intro u v credit huv
      simp only [huv.trackOrdinal, huv.subTrackOrdinal, huv.position]
    | trackByArtist =>
      simp only [deriveRelease]
      rw [trackPerformers_map h]
      intro u v artist huv
      simp only [huv.trackOrdinal, huv.subTrackOrdinal, huv.position]
    | _ =>
      simp only [deriveRelease, hgenres, hstyles, hcredits, hartists, hlabels, hmaster, hmedia,
        hreleaseCompanies]
  have hreplaced : (deriveRelease rt dataId a).replaced = (deriveRelease rt dataId b).replaced := by
    simp only [deriveRelease, hcompanies]
  show deriveRelease rt dataId a = deriveRelease rt dataId b
  exact DocumentGraph.ext hvertices hedges hreplaced

theorem get_cons (name field : String) (value : Json) (rest : Document) :
    Document.get ((name, value) :: rest) field =
      if field = name then value else Document.get rest field := by
  rw [Document.get, List.lookup_cons]
  by_cases h : field = name
  · simp [h]
  · have hname : (field == name) = false := by simp [h]
    simp [h, hname, Document.get]

/-- A credit and a performer as the dump has them: every wrapper a bare object. -/
def bareRelease : Document :=
  [("tracklist", .obj [("track", .obj [("position", .str "A"),
    ("extraartists", .obj [("artist", .obj [("name", .str "Emerick"), ("role", .str "Engineer")])]),
    ("sub_tracks", .obj [("track", .obj [("position", .str "A1"),
      ("artists", .obj [("artist", .obj [("id", .str "9")])])])])])])]

/-- The same release with every wrapper an array, or gone where it holds nothing. -/
def arrayRelease : Document :=
  [("tracklist", .arr [.obj [("position", .str "A"),
    ("extraartists", .arr [.obj [("name", .str "Emerick"), ("role", .str "Engineer")]]),
    ("artists", .obj []),
    ("sub_tracks", .obj [("track", .arr [.obj [("position", .str "A1"),
      ("artists", .arr [.obj [("id", .str "9")]])]])])]])]

theorem derivation_ignores_wrappers_bare :
    deriveDocument concreteRuntime .releases "1" bareRelease =
        deriveDocument concreteRuntime .releases "1" arrayRelease ∧
      (deriveDocument concreteRuntime .releases "1" bareRelease).edges .trackByArtist =
        [⟨[.text "1", .bigint 1, .bigint 1, .text "A1", .text "9"], rfl⟩] := by
  refine ⟨derivation_ignores_wrappers concreteRuntime "1" bareRelease arrayRelease ⟨?_, ?_⟩,
    by decide +kernel⟩
  · intro field hfield
    simp [bareRelease, arrayRelease, get_cons, hfield]
  · refine ⟨_, _, .single rfl (by simp) (by simp), .array _, .cons ?_ .nil⟩
    refine .rewrapped ?_ ⟨_, .single rfl (by simp) (by simp), .array _⟩ ⟨[], .null, .missing rfl⟩
      (.single rfl (by simp) (by simp)) (.wrapped rfl) (.cons ?_ .nil)
    · intro field hfield
      simp only [wrappedFields, List.mem_cons, List.not_mem_nil, or_false, not_or] at hfield
      simp [get_cons, hfield]
    · refine .rewrapped ?_ ⟨[], .null, .null⟩ ⟨_, .single rfl (by simp) (by simp), .array _⟩ .null
        .null .nil
      intro field hfield
      simp only [wrappedFields, List.mem_cons, List.not_mem_nil, or_false, not_or] at hfield
      simp [get_cons, hfield]

end Tableinator.Graph
