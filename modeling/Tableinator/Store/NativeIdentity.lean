import Tableinator.Store.Repetition

/-! # The native id of a stored row

`persist_record` writes `gm_item_id` in its conflict clause on every delivery; the batch
writes it with the payload and otherwise only where it is `NULL`.  The two differ on a
row whose payload did not change and whose id is no longer the one its alias resolves to. -/

namespace Tableinator

open Effect Relational

variable {rt : Runtime} {cap : Rat} {t : DataType} {dataId : String} {data : Document}
variable {st st' : Store} {now : Time}

/-- The message as the batch holds it. -/
def batchRecord (dataId : String) (data : Document) : BatchRecord :=
  ⟨dataId, data, contentHash data⟩

/-! ## One record -/

theorem accepts_of_persistRecord {outcome : Outcome}
    (h : (persistRecord rt now t dataId data).serial engine.alone st = .ok (outcome, st')) :
    Accepts rt t (batchRecord dataId data) := by
  unfold persistRecord at h
  cases hresolve : rt.resolveAlias (aliasRef t dataId) with
  | none => simp [hresolve] at h
  | some gmItemId =>
    cases hrowHash : rowHash rt t dataId data (contentHash data) with
    | none => simp [hresolve, hrowHash] at h
    | some hash =>
      simp only [hresolve, hrowHash] at h
      obtain ⟨prior, upserted, -, h⟩ := Program.serial_bind_eq_ok h
      cases htargets : aliasTargets rt t [(data, gmItemId)] with
      | none => simp [htargets] at h
      | some targets =>
        refine ⟨⟨by simp [batchRecord, hresolve], ?_⟩, by simp [BatchRecord.rowHash, batchRecord, hrowHash]⟩
        intro ht
        subst ht
        exact aliasRefs_of_targets htargets (data, gmItemId) (List.mem_singleton_self _)

end Tableinator
