import Tableinator.Store.Reload
import Tableinator.Store.Statistics

/-! # The figures of a dump

A reload leaves the last delivered version of each release, and a pass counts over the stored
documents, so the figures it publishes are those of the dump.  What the tables held before
shows in one place: a genre, style or label that no release carries any more keeps its
row, with nothing counted. -/

namespace Tableinator

open Effect Relational Tableinator.Graph

variable {rt : Runtime} {schema : Schema} {cap cap' : Rat} {t : DataType} {dataId : String}
  {st st' : Store} {a b : CounterRelations} {names related : Document → List String}

/-! ## The editions -/

/-- The stored releases are the same. -/
def SameReleases (st st' : Store) : Prop :=
  ∀ dataId data, Stored .releases dataId data st ↔ Stored .releases dataId data st'

theorem SameReleases.releasesWhere (h : SameReleases st st') (holds : Document → Prop) :
    releasesWhere st holds = releasesWhere st' holds := by
  ext dataId
  simp only [Tableinator.releasesWhere, Set.mem_ofPred_eq]
  exact exists_congr fun data => and_congr_left fun _ => h dataId data

theorem SameReleases.namedBy (h : SameReleases st st') (holds : Document → Prop) :
    namedBy st holds names = namedBy st' holds names := by
  ext name
  simp only [Tableinator.namedBy, Set.mem_ofPred_eq]
  exact exists_congr fun dataId => exists_congr fun data => and_congr_left fun _ => h dataId data

theorem SameReleases.yearsOf (h : SameReleases st st') (holds : Document → Prop) :
    yearsOf schema st holds = yearsOf schema st' holds := by
  ext n
  simp only [Tableinator.yearsOf, Set.mem_ofPred_eq]
  exact exists_congr fun dataId => exists_congr fun data => exists_congr fun _ =>
    and_congr_left fun _ => h dataId data

/-- The documents leave no choice to the row of a tag. -/
theorem TagMirror.unique {row row' : TagStats} (h : SameReleases st st')
    (hrow : TagMirror schema st names related row) (hrow' : TagMirror schema st' names related row')
    (hname : row.name = row'.name) : row = row' := by
  have hyear : row.firstYear = row'.firstYear := by
    refine Option.ext fun year => ?_
    rw [hrow.firstYear, hrow'.firstYear, hname, h.yearsOf]
  have hreleases := hrow.releases.trans (by rw [hname, h.releasesWhere, ← hrow'.releases])
  have hartists := hrow.artists.trans (by rw [hname, h.namedBy, ← hrow'.artists])
  have hlabels := hrow.labels.trans (by rw [hname, h.namedBy, ← hrow'.labels])
  have hrelated := hrow.related.trans (by rw [hname, h.namedBy, ← hrow'.related])
  cases row
  cases row'
  simp_all

theorem LabelMirror.unique {row row' : LabelStats} (h : SameReleases st st')
    (hrow : LabelMirror st row) (hrow' : LabelMirror st' row') (hlabel : row.labelId = row'.labelId) :
    row = row' := by
  have hreleases := hrow.releases.trans (by rw [hlabel, h.releasesWhere, ← hrow'.releases])
  have hartists := hrow.artists.trans (by rw [hlabel, h.namedBy, ← hrow'.artists])
  have hgenres := hrow.genres.trans (by rw [hlabel, h.namedBy, ← hrow'.genres])
  cases row
  cases row'
  simp_all

theorem Extraction.closed (x : Extraction rt cap t) : Closed rt x.final :=
  runOperations_inv closed_empty Operation.run_closed _

end Tableinator
