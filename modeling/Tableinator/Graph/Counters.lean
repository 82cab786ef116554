import Mathlib.Data.Set.Card
import Mathlib.Order.Bounds.Basic
import Tableinator.Graph.Derivation
import Tableinator.Relational.Query

/-! # Counter relations

`COUNTER_BODIES` and `refresh_counter_relations`: the seven relations the refresh pass
recomputes from the edge tables.  The bodies of `genre_stats` and `style_stats` find the
first year of every tag in one pass over the releases; the bodies they replaced looked it up
tag by tag.  Both cast the year text of a release to a 32-bit integer. -/

namespace Tableinator

open Relational
open Tableinator.Graph (isDigits)

/-! ## The tables -/

/-- An edge of a release: in `graph.in_genre`, `graph.in_style`, `graph.by_artist` or
    `graph.on_label`. -/
structure ReleaseEdge where
  releaseId : String
  target : String
  deriving DecidableEq, Repr

/-- `data_id` and `data ->> 'year'` of a release. -/
structure ReleaseYear where
  releaseId : String
  year : Option String
  deriving DecidableEq, Repr

/-- The relations the bodies read, with the columns they read. -/
structure CounterTables where
  genre : List String
  style : List String
  label : List String
  inGenre : List ReleaseEdge
  inStyle : List ReleaseEdge
  byArtist : List ReleaseEdge
  onLabel : List ReleaseEdge
  /-- `artist_id`. -/
  masterByArtist : List String
  /-- `artist_id`. -/
  sameAs : List String
  /-- `member_artist_id` and `group_artist_id`. -/
  memberOf : List (String × String)
  /-- `alias_artist_id` and `artist_id`. -/
  aliasOf : List (String × String)
  /-- `release_id` of the edges only `release_degree_base` reads. -/
  derivedFrom : List String
  creditedOn : List String
  creditedTo : List String
  issuedOn : List String
  releases : List ReleaseYear

/-! ## Years -/

/-- `numeric_value_out_of_range`. -/
inductive SqlError where
  | outOfRange
  deriving DecidableEq, Repr

/-- `btrim(text)`: spaces only. -/
def btrim (text : String) : String :=
  String.ofList
    (((text.toList.dropWhile (· = ' ')).reverse.dropWhile (· = ' ')).reverse)

/-- `btrim(year)::numeric`, on a text of digits. -/
def yearValue (year : String) : Nat := natOfDigits (btrim year).toList

/-- `btrim(year) ~ '^[0-9]+$' AND btrim(year)::numeric > 0`. -/
def positiveYear : Option String → Bool
  | none => false
  | some year => isDigits (btrim year) && 0 < yearValue year

/-- The greatest value of a 32-bit signed integer. -/
def maxInteger : Nat := 2147483647

/-- `btrim(year)::integer`, on a text of digits. -/
def castInteger : Option String → Except SqlError (Option Nat)
  | none => .ok none
  | some year => if yearValue year ≤ maxInteger then .ok (some (yearValue year)) else .error .outOfRange

/-- `min(btrim(year)::integer)`: `NULL` over no value. -/
def minYear (years : List (Option String)) : Except SqlError (Option Nat) := do
  let values ← years.mapM castInteger
  return (values.filterMap id).min?

/-! ## The bodies -/

/-- `count(DISTINCT joined.…) FROM edges JOIN joined ON the release WHERE edge.target = tag`. -/
def countJoined (edges joined : List ReleaseEdge) (tag : String) : Nat :=
  countDistinct (((join (fun edge row => row.releaseId = edge.releaseId) edges joined).filter
    fun row => row.1.target = tag).map fun row => row.2.target)

/-- A row of `genre_stats` or `style_stats`; `relatedCount` is `style_count` of a genre and
    `genre_count` of a style. -/
structure TagStats where
  name : String
  releaseCount : Nat
  artistCount : Nat
  labelCount : Nat
  relatedCount : Nat
  firstYear : Option Nat
  deriving DecidableEq, Repr

section

variable (db : CounterTables)

/-- The edges of tags joined with the releases that carry a positive decimal year. -/
def datedEdges (edges : List ReleaseEdge) : List (ReleaseEdge × ReleaseYear) :=
  (join (fun edge release => release.releaseId = edge.releaseId) edges db.releases).filter
    fun row => positiveYear row.2.year

/-- The grouped subquery `first_year`. -/
def firstYears (edges : List ReleaseEdge) : Except SqlError (List (String × Option Nat)) :=
  aggregate (fun rows => minYear (rows.map fun row => row.2.year))
    (groupBy (fun row => row.1.target) (datedEdges db edges))

/-- The counts of one tag. -/
def tagRow (edges related : List ReleaseEdge) (name : String) (firstYear : Option Nat) : TagStats where
  name := name
  releaseCount := (edges.filter fun edge => edge.target = name).length
  artistCount := countJoined edges db.byArtist name
  labelCount := countJoined edges db.onLabel name
  relatedCount := countJoined edges related name
  firstYear := firstYear

/-- The bodies of `genre_stats` and `style_stats`. -/
def tagStats (vertices : List String) (edges related : List ReleaseEdge) :
    Except SqlError (List TagStats) := do
  let firstYear ← firstYears db edges
  return (leftJoin (fun name row => row.1 = name) vertices firstYear).map fun row =>
    tagRow db edges related row.1 (row.2.bind Prod.snd)

def genreStats : Except SqlError (List TagStats) := tagStats db db.genre db.inGenre db.inStyle

def styleStats : Except SqlError (List TagStats) := tagStats db db.style db.inStyle db.inGenre

/-- The view `graph.release`: the id and the year of each release. -/
def graphRelease : List ReleaseYear := db.releases

/-- The bodies `genre_stats` and `style_stats` had before: the year by a correlated subquery. -/
def tagStatsPerTag (vertices : List String) (edges related : List ReleaseEdge) :
    Except SqlError (List TagStats) :=
  vertices.mapM fun name => do
    let firstYear ← minYear
      (((join (fun edge release => release.releaseId = edge.releaseId) edges (graphRelease db)).filter
        fun row => row.1.target = name && positiveYear row.2.year).map fun row => row.2.year)
    return tagRow db edges related name firstYear

def genreStatsPerTag : Except SqlError (List TagStats) :=
  tagStatsPerTag db db.genre db.inGenre db.inStyle

def styleStatsPerTag : Except SqlError (List TagStats) :=
  tagStatsPerTag db db.style db.inStyle db.inGenre

structure LabelStats where
  labelId : String
  releaseCount : Nat
  artistCount : Nat
  genreCount : Nat
  deriving DecidableEq, Repr

def labelStats : List LabelStats :=
  db.label.map fun labelId =>
    { labelId
      releaseCount :=
        countDistinct ((db.onLabel.filter fun edge => edge.target = labelId).map (·.releaseId))
      artistCount := countJoined db.onLabel db.byArtist labelId
      genreCount := countJoined db.onLabel db.inGenre labelId }

/-- `count(*) … GROUP BY` over a union of endpoints. -/
def degrees (endpoints : List String) : List (String × Nat) :=
  (groupBy id endpoints).map fun group => (group.1, group.2.length)

def artistDegree : List (String × Nat) :=
  degrees (db.byArtist.map (·.target) ++ db.masterByArtist ++ db.sameAs ++ db.memberOf.map Prod.fst ++
    db.memberOf.map Prod.snd ++ db.aliasOf.map Prod.fst ++ db.aliasOf.map Prod.snd)

def releaseDegreeBase : List (String × Nat) :=
  degrees (db.byArtist.map (·.releaseId) ++ db.onLabel.map (·.releaseId) ++
    db.inGenre.map (·.releaseId) ++ db.inStyle.map (·.releaseId) ++ db.derivedFrom ++ db.creditedOn ++
    db.creditedTo ++ db.issuedOn)

/-- The releases each pair of an endpoint and a genre shares. -/
def pairCounts (edges : List ReleaseEdge) : List ((String × String) × Nat) :=
  (groupBy (fun row => (row.1.target, row.2.target))
    (join (fun edge row => row.releaseId = edge.releaseId) edges db.inGenre)).map fun group =>
      (group.1, countDistinct (group.2.map fun row => row.1.releaseId))

def artistGenre : List ((String × String) × Nat) := pairCounts db db.byArtist

def labelGenre : List ((String × String) × Nat) := pairCounts db db.onLabel

end

/-- The contents of the seven counter relations. -/
structure CounterRelations where
  genreStats : List TagStats
  styleStats : List TagStats
  labelStats : List LabelStats
  artistDegree : List (String × Nat)
  releaseDegreeBase : List (String × Nat)
  artistGenre : List ((String × String) × Nat)
  labelGenre : List ((String × String) × Nat)
  deriving DecidableEq

/-- `refresh_counter_relations`: each relation is emptied and refilled from its body, in
    `REFRESH_ORDER`; what a body raises rolls the transaction back. -/
def refreshCounterRelations (db : CounterTables) : Except SqlError CounterRelations := do
  let genreStats ← genreStats db
  let styleStats ← styleStats db
  return {
    genreStats := genreStats
    styleStats := styleStats
    labelStats := labelStats db
    artistDegree := artistDegree db
    releaseDegreeBase := releaseDegreeBase db
    artistGenre := artistGenre db
    labelGenre := labelGenre db }

/-! ## Casts -/

section

variable {db : CounterTables} {edges related : List ReleaseEdge} {vertices : List String}
variable {years : List (Option String)} {name : String}

/-- Every year text among these is within the integer's range. -/
def InRange (years : List (Option String)) : Prop :=
  ∀ year, some year ∈ years → yearValue year ≤ maxInteger

/-- The least of the years, where no cast raises. -/
def leastYear (years : List (Option String)) : Option Nat :=
  (years.filterMap fun year => year.map yearValue).min?

theorem castInteger_isOk {year : Option String} :
    (castInteger year).isOk = true ↔ ∀ text, year = some text → yearValue text ≤ maxInteger := by
  cases year with
  | none => simp [castInteger, Except.isOk, Except.toBool]
  | some text =>
    by_cases hrange : yearValue text ≤ maxInteger
    · simp [castInteger, hrange, Except.isOk, Except.toBool]
    · simp [castInteger, hrange, Except.isOk, Except.toBool]

theorem minYear_isOk : (minYear years).isOk = true ↔ InRange years := by
  have hmap : minYear years = (years.mapM castInteger).map fun values => (values.filterMap id).min? := by
    unfold minYear
    cases years.mapM castInteger <;> rfl
  rw [hmap, map_isOk, mapM_isOk]
  simp only [castInteger_isOk, InRange]
  constructor
  · exact fun h year hyear => h (some year) hyear year rfl
  · intro h year hyear text htext
    subst htext
    exact h text hyear

theorem minYear_of_inRange (h : InRange years) : minYear years = .ok (leastYear years) := by
  have hcasts : years.mapM castInteger = .ok (years.map fun year => year.map yearValue) := by
    apply mapM_of_ok
    intro year hyear
    cases year with
    | none => rfl
    | some text => simp [castInteger, h text hyear]
  rw [minYear, hcasts]
  simp [leastYear, bind, Except.bind, pure, Except.pure, List.filterMap_map]

/-! ## The years of a tag -/

/-- The positive decimal years of the releases a tag is on. -/
def taggedYears (db : CounterTables) (edges : List ReleaseEdge) (name : String) : Set Nat :=
  {n | ∃ edge ∈ edges, ∃ release ∈ db.releases, ∃ year, edge.target = name ∧
    release.releaseId = edge.releaseId ∧ release.year = some year ∧
    positiveYear (some year) = true ∧ yearValue year = n}

/-- Every year the join of the edges reaches is within the integer's range. -/
def EdgesInRange (db : CounterTables) (edges : List ReleaseEdge) : Prop :=
  ∀ edge ∈ edges, ∀ release ∈ db.releases, release.releaseId = edge.releaseId →
    ∀ year, release.year = some year → positiveYear (some year) = true → yearValue year ≤ maxInteger

/-- The joined rows of one tag. -/
def datedRows (db : CounterTables) (edges : List ReleaseEdge) (name : String) :
    List (ReleaseEdge × ReleaseYear) :=
  (datedEdges db edges).filter fun row => row.1.target = name

theorem mem_datedEdges {row : ReleaseEdge × ReleaseYear} : row ∈ datedEdges db edges ↔
    row.1 ∈ edges ∧ row.2 ∈ db.releases ∧ row.2.releaseId = row.1.releaseId ∧
      positiveYear row.2.year = true := by
  obtain ⟨edge, release⟩ := row
  simp only [datedEdges, List.mem_filter, mem_join, decide_eq_true_eq, and_assoc]

theorem inRange_datedRows (h : EdgesInRange db edges) :
    InRange ((datedRows db edges name).map fun row => row.2.year) := by
  intro year hyear
  obtain ⟨row, hrow, hvalue⟩ := List.mem_map.1 hyear
  obtain ⟨hedge, hrelease, hjoin, hpositive⟩ := mem_datedEdges.1 (List.mem_filter.1 hrow).1
  rw [hvalue] at hpositive
  exact h row.1 hedge row.2 hrelease hjoin year hvalue hpositive

theorem mem_taggedYears {n : Nat} : n ∈ taggedYears db edges name ↔
    n ∈ ((datedRows db edges name).map fun row => row.2.year).filterMap fun year =>
      year.map yearValue := by
  simp only [taggedYears, Set.mem_ofPred_eq, List.mem_filterMap, List.mem_map, datedRows,
    List.mem_filter, mem_datedEdges, decide_eq_true_eq, Option.map_eq_some_iff]
  constructor
  · intro h
    obtain ⟨edge, hedge, release, hrelease, year, htag, hjoin, hyear, hpositive, hvalue⟩ := h
    exact ⟨some year, ⟨(edge, release), ⟨⟨hedge, hrelease, hjoin, hyear ▸ hpositive⟩, htag⟩, hyear⟩,
      year, rfl, hvalue⟩
  · intro h
    obtain ⟨_, ⟨row, ⟨⟨hedge, hrelease, hjoin, hpositive⟩, htag⟩, hyear⟩, year, rfl, hvalue⟩ := h
    exact ⟨row.1, hedge, row.2, hrelease, year, htag, hjoin, hyear, hyear ▸ hpositive, hvalue⟩

def leastDate (rows : List (ReleaseEdge × ReleaseYear)) : Option Nat :=
  leastYear (rows.map fun row => row.2.year)

/-- The first year of a tag. -/
def firstYearOf (db : CounterTables) (edges : List ReleaseEdge) (name : String) : Option Nat :=
  leastDate (datedRows db edges name)

theorem firstYearOf_eq_some {n : Nat} :
    firstYearOf db edges name = some n ↔ IsLeast (taggedYears db edges name) n := by
  rw [firstYearOf, leastDate, leastYear, List.min?_eq_some_iff, ← mem_taggedYears, IsLeast, mem_lowerBounds]
  simp only [← mem_taggedYears]

theorem firstYearOf_eq_none :
    firstYearOf db edges name = none ↔ taggedYears db edges name = ∅ := by
  rw [firstYearOf, leastDate, leastYear, List.min?_eq_none_iff, Set.eq_empty_iff_forall_notMem]
  simp only [mem_taggedYears]
  exact List.eq_nil_iff_forall_not_mem

/-! ## One pass and tag by tag -/

theorem firstYears_of_inRange (h : EdgesInRange db edges) :
    firstYears db edges = .ok ((groupBy (fun row => row.1.target) (datedEdges db edges)).map
      fun group => (group.1, leastDate group.2)) := by
  apply @aggregate_of_ok _ _ _ _ _ leastDate
  intro group hgroup
  rw [(mem_groupBy.1 hgroup).2]
  exact minYear_of_inRange (inRange_datedRows h)

/-- The joined subquery gives each tag its first year, and none where it has no dated release. -/
theorem tagStats_of_inRange (h : EdgesInRange db edges) : tagStats db vertices edges related =
    .ok (vertices.map fun name => tagRow db edges related name (firstYearOf db edges name)) := by
  rw [tagStats, firstYears_of_inRange h]
  show Except.ok _ = _
  rw [leftJoin_groupBy leastDate fun name : String => name, List.map_map]
  congr 1
  apply List.map_congr_left
  intro name _
  simp only [Function.comp_apply]
  split
  · next hempty =>
    have hnone : firstYearOf db edges name = none := by
      rw [firstYearOf, datedRows, hempty]
      rfl
    rw [hnone, Option.bind_none]
  · rfl

theorem tagStatsPerTag_of_inRange (h : EdgesInRange db edges) :
    tagStatsPerTag db vertices edges related =
      .ok (vertices.map fun name => tagRow db edges related name (firstYearOf db edges name)) := by
  apply mapM_of_ok
  intro name _
  have hrows : (join (fun edge release => release.releaseId = edge.releaseId) edges
      (graphRelease db)).filter (fun row => row.1.target = name && positiveYear row.2.year) =
        datedRows db edges name := by
    rw [datedRows, datedEdges, List.filter_filter]
    rfl
  rw [hrows, minYear_of_inRange (inRange_datedRows h)]
  rfl

/-- `count(DISTINCT …)` over a join counts the values the join reaches. -/
theorem countJoined_eq_ncard (edges joined : List ReleaseEdge) (name : String) :
    countJoined edges joined name =
      Set.ncard {target | ∃ edge ∈ edges, ∃ row ∈ joined, edge.target = name ∧
        row.releaseId = edge.releaseId ∧ row.target = target} := by
  rw [countJoined, countDistinct, ← List.card_toFinset, ← Set.ncard_coe_finset]
  congr 1
  ext target
  simp only [List.coe_toFinset, Set.mem_ofPred_eq, List.mem_map, List.mem_filter, Prod.exists,
    mem_join, decide_eq_true_eq]
  constructor
  · intro h
    obtain ⟨edge, row, ⟨⟨hedge, hrow, hjoin⟩, htag⟩, htarget⟩ := h
    exact ⟨edge, hedge, row, hrow, htag, hjoin, htarget⟩
  · intro h
    obtain ⟨edge, hedge, row, hrow, htag, hjoin, htarget⟩ := h
    exact ⟨edge, row, ⟨⟨hedge, hrow, hjoin⟩, htag⟩, htarget⟩

/-- What a row of a tag's counters is to say. -/
structure Counts (db : CounterTables) (edges related : List ReleaseEdge) (row : TagStats) : Prop where
  releases : row.releaseCount = (edges.filter fun edge => edge.target = row.name).length
  artists : row.artistCount = Set.ncard {artist | ∃ edge ∈ edges, ∃ credit ∈ db.byArtist,
    edge.target = row.name ∧ credit.releaseId = edge.releaseId ∧ credit.target = artist}
  labels : row.labelCount = Set.ncard {label | ∃ edge ∈ edges, ∃ issue ∈ db.onLabel,
    edge.target = row.name ∧ issue.releaseId = edge.releaseId ∧ issue.target = label}
  related : row.relatedCount = Set.ncard {tag | ∃ edge ∈ edges, ∃ other ∈ related,
    edge.target = row.name ∧ other.releaseId = edge.releaseId ∧ other.target = tag}
  firstYear : ∀ year, row.firstYear = some year ↔ IsLeast (taggedYears db edges row.name) year
  undated : row.firstYear = none ↔ taggedYears db edges row.name = ∅

theorem counts_tagRow :
    Counts db edges related (tagRow db edges related name (firstYearOf db edges name)) where
  releases := rfl
  artists := countJoined_eq_ncard _ _ _
  labels := countJoined_eq_ncard _ _ _
  related := countJoined_eq_ncard _ _ _
  firstYear _ := firstYearOf_eq_some
  undated := firstYearOf_eq_none

/-- A body and the one it replaced return the same rows, one for each vertex, with the counts
    and the first year they are to have. -/
def BodiesAgree (db : CounterTables) (vertices : List String) (edges related : List ReleaseEdge)
    (onePass perTag : Except SqlError (List TagStats)) : Prop :=
  ∃ new old, onePass = .ok new ∧ perTag = .ok old ∧ (∀ row, row ∈ new ↔ row ∈ old) ∧
    new.map (·.name) = vertices ∧ ∀ row ∈ new, Counts db edges related row

theorem bodiesAgree_of_inRange (h : EdgesInRange db edges) : BodiesAgree db vertices edges related
    (tagStats db vertices edges related) (tagStatsPerTag db vertices edges related) := by
  refine ⟨_, _, tagStats_of_inRange h, tagStatsPerTag_of_inRange h, fun _ => Iff.rfl, ?_, ?_⟩
  · rw [List.map_map]
    exact List.map_id _
  · intro row hrow
    obtain ⟨name, _, rfl⟩ := List.mem_map.1 hrow
    exact counts_tagRow

end

/-- Whatever the tables hold, as long as the years made of digits fit an integer, the one-pass
    bodies of `genre_stats` and `style_stats` return the rows of the bodies they replaced. -/
theorem one_pass_bodies_match (db : CounterTables)
    (hyears : ∀ release ∈ db.releases, ∀ year, release.year = some year →
      isDigits (btrim year) = true → yearValue year ≤ maxInteger) :
    BodiesAgree db db.genre db.inGenre db.inStyle (genreStats db) (genreStatsPerTag db) ∧
      BodiesAgree db db.style db.inStyle db.inGenre (styleStats db) (styleStatsPerTag db) := by
  have hrange : ∀ edges, EdgesInRange db edges := by
    intro edges edge _ release hrelease _ year hyear hpositive
    simp only [positiveYear, Bool.and_eq_true] at hpositive
    exact hyears release hrelease year hyear hpositive.1
  exact ⟨bodiesAgree_of_inRange (hrange _), bodiesAgree_of_inRange (hrange _)⟩

/-- A tag of two dated releases, one undated, one without a release. -/
def datedTables : CounterTables where
  genre := ["Rock", "Jazz", "Folk"]
  style := ["Surf"]
  label := []
  inGenre := [⟨"1", "Rock"⟩, ⟨"2", "Rock"⟩, ⟨"3", "Jazz"⟩, ⟨"9", "Jazz"⟩]
  inStyle := [⟨"1", "Surf"⟩]
  byArtist := [⟨"1", "5"⟩, ⟨"2", "5"⟩]
  onLabel := []
  masterByArtist := []
  sameAs := []
  memberOf := []
  aliasOf := []
  derivedFrom := []
  creditedOn := []
  creditedTo := []
  issuedOn := []
  releases := [⟨"1", some "  1985 "⟩, ⟨"2", some "0042"⟩, ⟨"3", some "0000"⟩, ⟨"4", none⟩]

theorem one_pass_bodies_match_dated :
    BodiesAgree datedTables ["Rock", "Jazz", "Folk"] datedTables.inGenre datedTables.inStyle
        (genreStats datedTables) (genreStatsPerTag datedTables) ∧
      BodiesAgree datedTables ["Surf"] datedTables.inStyle datedTables.inGenre
        (styleStats datedTables) (styleStatsPerTag datedTables) := by
  apply one_pass_bodies_match datedTables
  intro release hrelease year hyear _
  simp only [datedTables, List.mem_cons, List.not_mem_nil, or_false] at hrelease
  rcases hrelease with rfl | rfl | rfl | rfl
  · cases hyear
    decide +kernel
  · cases hyear
    decide +kernel
  · cases hyear
    decide +kernel
  · cases hyear

/-! ## A refresh that raises -/

section

variable {db : CounterTables} {edges related : List ReleaseEdge} {vertices : List String}

theorem firstYears_isOk : (firstYears db edges).isOk = true ↔ EdgesInRange db edges := by
  rw [firstYears, aggregate_isOk]
  simp only [minYear_isOk]
  constructor
  · intro h edge hedge release hrelease hjoin year hyear hpositive
    have hrow : (edge, release) ∈ datedEdges db edges :=
      mem_datedEdges.2 ⟨hedge, hrelease, hjoin, hyear ▸ hpositive⟩
    have hgroup : (edge.target, datedRows db edges edge.target) ∈
        groupBy (fun row => row.1.target) (datedEdges db edges) :=
      mem_groupBy.2 ⟨List.mem_map.2 ⟨_, hrow, rfl⟩, rfl⟩
    apply h _ hgroup year
    exact List.mem_map.2 ⟨(edge, release), List.mem_filter.2 ⟨hrow, by simp⟩, hyear⟩
  · intro h group hgroup
    rw [(mem_groupBy.1 hgroup).2]
    exact inRange_datedRows h

theorem tagStats_isOk :
    (tagStats db vertices edges related).isOk = true ↔ EdgesInRange db edges := by
  rw [← firstYears_isOk, tagStats]
  cases firstYears db edges with
  | error e => exact Iff.rfl
  | ok rows => exact Iff.rfl

/-- The refresh goes through exactly if every positive decimal year of a release under a genre
    or a style is at most 2147483647. -/
theorem refresh_succeeds_iff (db : CounterTables) :
    (refreshCounterRelations db).isOk = true ↔
      EdgesInRange db db.inGenre ∧ EdgesInRange db db.inStyle := by
  rw [← @tagStats_isOk db db.inGenre db.inStyle db.genre,
    ← @tagStats_isOk db db.inStyle db.inGenre db.style]
  unfold refreshCounterRelations genreStats styleStats
  cases tagStats db db.genre db.inGenre db.inStyle with
  | error e => simp [bind, Except.bind, Except.isOk, Except.toBool]
  | ok genres =>
    cases tagStats db db.style db.inStyle db.inGenre with
    | error e => simp [bind, Except.bind, Except.isOk, Except.toBool]
    | ok styles => simp [bind, Except.bind, pure, Except.pure, Except.isOk, Except.toBool]

end

/-- One release of a genre, dated far out of the integer's range. -/
def overflowingTables : CounterTables :=
  { datedTables with inGenre := [⟨"1", "Rock"⟩], releases := [⟨"1", some "9999999999"⟩] }

/-- Its year passes the filter, and its cast fails the whole refresh. -/
theorem overflowing_year_fails_refresh :
    positiveYear (some "9999999999") = true ∧ ¬yearValue "9999999999" ≤ maxInteger ∧
      genreStats overflowingTables = .error .outOfRange ∧
      refreshCounterRelations overflowingTables = .error .outOfRange := by
  have hgenre : genreStats overflowingTables = .error .outOfRange := by decide +kernel
  refine ⟨by decide +kernel, by decide +kernel, hgenre, ?_⟩
  rw [refreshCounterRelations, hgenre]
  rfl

end Tableinator
