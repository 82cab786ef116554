import Tableinator.Graph.Counters

/-! # Counters as projections

The refresh empties each counter relation and fills it from its body, so that it is exactly
the projection of the rows present.  A scan returns rows in no particular order: below, the
counters of two scans of the same tables have the same rows, and each counter is the number
it is named after. -/

namespace Tableinator

open Relational
open Tableinator.Graph (isDigits)

/-! ## Scans of the same tables -/

/-- The rows of the tables, in another order. -/
structure CounterTables.Reorders (a b : CounterTables) : Prop where
  genre : a.genre.Perm b.genre
  style : a.style.Perm b.style
  label : a.label.Perm b.label
  inGenre : a.inGenre.Perm b.inGenre
  inStyle : a.inStyle.Perm b.inStyle
  byArtist : a.byArtist.Perm b.byArtist
  onLabel : a.onLabel.Perm b.onLabel
  masterByArtist : a.masterByArtist.Perm b.masterByArtist
  sameAs : a.sameAs.Perm b.sameAs
  memberOf : a.memberOf.Perm b.memberOf
  aliasOf : a.aliasOf.Perm b.aliasOf
  derivedFrom : a.derivedFrom.Perm b.derivedFrom
  creditedOn : a.creditedOn.Perm b.creditedOn
  creditedTo : a.creditedTo.Perm b.creditedTo
  issuedOn : a.issuedOn.Perm b.issuedOn
  releases : a.releases.Perm b.releases

/-- The releases a group of joined rows is about. -/
def sharedReleases (rows : List (ReleaseEdge × ReleaseEdge)) : Nat :=
  countDistinct (rows.map fun row => row.1.releaseId)

/-- The rows of an endpoint's edges beside those of a genre on the same release. -/
def pairedEdges (db : CounterTables) (edges : List ReleaseEdge) : List (ReleaseEdge × ReleaseEdge) :=
  join (fun edge row => row.releaseId = edge.releaseId) edges db.inGenre

def pairKey (row : ReleaseEdge × ReleaseEdge) : String × String := (row.1.target, row.2.target)

theorem pairCounts_eq (db : CounterTables) (edges : List ReleaseEdge) : pairCounts db edges =
    (groupBy pairKey (pairedEdges db edges)).map fun group => (group.1, sharedReleases group.2) := rfl

instance : Subsingleton SqlError := ⟨fun a b => by cases a; cases b; rfl⟩

/-- The rows of the seven relations, in another order. -/
structure CounterRelations.Reorders (a b : CounterRelations) : Prop where
  genreStats : a.genreStats.Perm b.genreStats
  styleStats : a.styleStats.Perm b.styleStats
  labelStats : a.labelStats.Perm b.labelStats
  artistDegree : a.artistDegree.Perm b.artistDegree
  releaseDegreeBase : a.releaseDegreeBase.Perm b.releaseDegreeBase
  artistGenre : a.artistGenre.Perm b.artistGenre
  labelGenre : a.labelGenre.Perm b.labelGenre

section

variable {a b : CounterTables} {edges edges' joined joined' related related' : List ReleaseEdge}
variable {vertices vertices' : List String} {name : String}

theorem countJoined_perm (hedges : edges.Perm edges') (hjoined : joined.Perm joined') :
    countJoined edges joined name = countJoined edges' joined' name :=
  countDistinct_perm (((join_perm hedges hjoined).filter _).map _)

theorem edgesInRange_perm (h : a.Reorders b) (hedges : edges.Perm edges') :
    EdgesInRange a edges ↔ EdgesInRange b edges' := by
  simp only [EdgesInRange, hedges.mem_iff, h.releases.mem_iff]

theorem firstYearOf_perm (h : a.Reorders b) (hedges : edges.Perm edges') :
    firstYearOf a edges name = firstYearOf b edges' name := by
  have hyears : taggedYears a edges name = taggedYears b edges' name := by
    simp only [taggedYears, hedges.mem_iff, h.releases.mem_iff]
  cases hfirst : firstYearOf b edges' name with
  | none => rw [firstYearOf_eq_none, hyears, ← firstYearOf_eq_none, hfirst]
  | some year => rw [firstYearOf_eq_some, hyears, ← firstYearOf_eq_some, hfirst]

theorem tagRow_perm (h : a.Reorders b) (hedges : edges.Perm edges') (hrelated : related.Perm related') :
    tagRow a edges related name (firstYearOf a edges name) =
      tagRow b edges' related' name (firstYearOf b edges' name) := by
  simp only [tagRow, countJoined_perm hedges h.byArtist, countJoined_perm hedges h.onLabel,
    countJoined_perm hedges hrelated, firstYearOf_perm h hedges, (hedges.filter _).length_eq]

theorem tagStats_perm (h : a.Reorders b) (hvertices : vertices.Perm vertices')
    (hedges : edges.Perm edges') (hrelated : related.Perm related') :
    SameOutcome List.Perm (tagStats a vertices edges related)
      (tagStats b vertices' edges' related') := by
  by_cases hrange : EdgesInRange a edges
  · rw [tagStats_of_inRange hrange, tagStats_of_inRange ((edgesInRange_perm h hedges).1 hrange)]
    simp only [tagRow_perm h hedges hrelated]
    exact hvertices.map _
  · have hrange' : ¬EdgesInRange b edges' := fun h' => hrange ((edgesInRange_perm h hedges).2 h')
    rw [← @tagStats_isOk a edges related vertices] at hrange
    rw [← @tagStats_isOk b edges' related' vertices'] at hrange'
    exact sameOutcome_of_error hrange hrange'

theorem labelStats_perm (h : a.Reorders b) : (labelStats a).Perm (labelStats b) := by
  have hrow : ∀ labelId, countDistinct ((a.onLabel.filter fun edge => edge.target = labelId).map
      (·.releaseId)) = countDistinct ((b.onLabel.filter fun edge => edge.target = labelId).map
        (·.releaseId)) :=
    fun labelId => countDistinct_perm ((h.onLabel.filter _).map _)
  simp only [labelStats, hrow, countJoined_perm h.onLabel h.byArtist, countJoined_perm h.onLabel h.inGenre]
  exact h.label.map _

theorem degrees_perm {endpoints endpoints' : List String} (h : endpoints.Perm endpoints') :
    (degrees endpoints).Perm (degrees endpoints') :=
  map_groupBy_perm (fun _ _ hperm => hperm.length_eq) h

theorem artistDegree_perm (h : a.Reorders b) : (artistDegree a).Perm (artistDegree b) := by
  have hmembers := (h.memberOf.map Prod.fst).append (h.memberOf.map Prod.snd)
  have haliases := (h.aliasOf.map Prod.fst).append (h.aliasOf.map Prod.snd)
  have hcredits := ((h.byArtist.map (·.target)).append h.masterByArtist).append h.sameAs
  apply degrees_perm
  simpa only [List.append_assoc] using (hcredits.append hmembers).append haliases

theorem releaseDegreeBase_perm (h : a.Reorders b) :
    (releaseDegreeBase a).Perm (releaseDegreeBase b) := by
  have hentries := (h.byArtist.map (·.releaseId)).append (h.onLabel.map (·.releaseId))
  have htags := (h.inGenre.map (·.releaseId)).append (h.inStyle.map (·.releaseId))
  have hcredits := ((h.derivedFrom.append h.creditedOn).append h.creditedTo).append h.issuedOn
  apply degrees_perm
  simpa only [List.append_assoc] using (hentries.append htags).append hcredits

theorem pairCounts_perm (h : a.Reorders b) (hedges : edges.Perm edges') :
    (pairCounts a edges).Perm (pairCounts b edges') := by
  rw [pairCounts_eq, pairCounts_eq]
  apply map_groupBy_perm
  · intro rows rows' hperm
    exact countDistinct_perm (hperm.map _)
  · exact join_perm hedges h.inGenre

/-- The counters of two scans of the same tables have the same rows, or both refreshes raise. -/
theorem refreshCounterRelations_perm (h : a.Reorders b) :
    SameOutcome CounterRelations.Reorders (refreshCounterRelations a) (refreshCounterRelations b) := by
  have hgenres := tagStats_perm h h.genre h.inGenre h.inStyle
  have hstyles := tagStats_perm h h.style h.inStyle h.inGenre
  refine sameOutcome_bind hgenres fun genres genres' hgenre => ?_
  refine sameOutcome_bind hstyles fun styles styles' hstyle => ?_
  exact ⟨hgenre, hstyle, labelStats_perm h, artistDegree_perm h, releaseDegreeBase_perm h,
    pairCounts_perm h h.byArtist, pairCounts_perm h h.onLabel⟩

end

/-! ## What a row counts -/

section

variable {db : CounterTables} {edges : List ReleaseEdge} {endpoints : List String}

/-- A degree is the number of times its key is an endpoint; a key that is none has no row. -/
theorem mem_degrees {key : String} {n : Nat} :
    (key, n) ∈ degrees endpoints ↔ 0 < n ∧ n = endpoints.count key := by
  rw [degrees, @mem_map_groupBy _ _ _ _ _ _ List.length]
  have hcount : (endpoints.filter fun endpoint => id endpoint = key).length = endpoints.count key := by
    simp only [id, List.count_eq_length_filter, beq_eq_decide]
  rw [hcount]
  simp only [id, exists_eq_right]
  constructor
  · intro h
    exact ⟨h.2 ▸ List.count_pos_iff.2 h.1, h.2⟩
  · intro h
    exact ⟨List.count_pos_iff.1 (h.2 ▸ h.1), h.2⟩

/-- Together the degrees are as many as the endpoints. -/
theorem sum_degrees (endpoints : List String) :
    ((degrees endpoints).map Prod.snd).sum = endpoints.length := by
  have hdegree : (degrees endpoints).map Prod.snd = endpoints.dedup.map fun key => endpoints.count key := by
    simp only [degrees, groupBy, List.map_map, List.map_id, Function.comp_def, id,
      List.count_eq_length_filter, beq_eq_decide]
  rw [hdegree, List.sum_map_count_dedup_eq_length]

end

end Tableinator
