import Tableinator.Store.Reload

/-! # Identifier aliases

A release is found again by the barcode, the catalogue number or the matrix that it prints:
each is an alias of its native item.  Two releases may print the same one.  Then the one that
was committed first keeps it: no later transaction moves an alias, not even the purge of the
release that it came from. -/

namespace Tableinator

open Effect Relational Tableinator.Graph

/-- The identifiers that a payload prints. -/
def printed (rt : Runtime) (data : Document) : List AliasRef := (aliasRefs rt data).getD []

section

variable {rt : Runtime} {cap : Rat} {t : DataType} {dataId : String} {data : Document}
variable {st st' : Store} {op : Operation} {records : List BatchRecord} {record : BatchRecord}
variable {ref : AliasRef} {item : NativeId}

/-! ## One transaction -/

theorem minted_nil (ref : AliasRef) : minted rt t [] ref = none := by
  unfold minted
  split <;> rfl

/-- A transaction adds the aliases of the releases that it writes, where they are free. -/
theorem Operation.run_aliases (hidentified : ∀ t, Identified rt t st)
    (hrun : op.run rt cap st = .ok st') (ref : AliasRef) :
    st'.aliases ref = (st.aliases ref).or (minted rt .releases (op.records .releases) ref) := by
  cases hwrites : op.writes with
  | some write =>
    obtain ⟨now, t', records⟩ := write
    obtain ⟨-, hleaves, -, -⟩ := op.run_writes hidentified hrun hwrites
    simp only [Operation.records, hwrites]
    rw [hleaves.aliases]
    by_cases ht : t' = .releases
    · rw [if_pos ht, ht]
    · rw [if_neg ht, minted_nil, minted, if_neg ht]
  | none =>
    -- a purge leaves the aliases of the releases it removes
    obtain ⟨t', startedAt, recordCount, rfl⟩ := purge_of_writes_none hwrites
    have hsame : st'.aliases = st.aliases := by
      rcases Operation.run_purge hrun with rfl | ⟨started, hpurged⟩
      · rfl
      · exact hpurged.aliases
    simp only [Operation.records, hwrites]
    rw [hsame, minted_nil, Option.or_none]

/-- A stored document was stored before, or comes from the transaction. -/
theorem Operation.run_stored (hidentified : ∀ t, Identified rt t st)
    (hrun : op.run rt cap st = .ok st') (hstored : Stored t dataId data st') :
    Stored t dataId data st ∨
      ∃ record ∈ op.records t, record.dataId = dataId ∧ record.data = data := by
  obtain ⟨row, hrow, hdata⟩ := Option.map_eq_some_iff.1 hstored
  cases op.run_data hidentified hrun hrow with
  | inl hold =>
    obtain ⟨old, hlookup, hsame⟩ := hold
    refine .inl ?_
    rw [Stored, hlookup, Option.map_some, hsame, hdata]
  | inr hnew =>
    obtain ⟨record, hrecord, hid, hpayload⟩ := hnew
    exact .inr ⟨record, hrecord, hid, Json.obj.inj (hpayload.symm.trans hdata)⟩

/-! ## A run -/

/-- Whatever else runs, the aliases follow the releases that were committed. -/
theorem resume_aliases {steps : List (Operation × Bool)} (hidentified : ∀ t, Identified rt t st)
    (ref : AliasRef) : (resume rt cap st steps).aliases ref =
      (st.aliases ref).or (minted rt .releases (delivered rt cap .releases st steps) ref) := by
  induction steps generalizing st with
  | nil => rw [delivered, minted_nil, Option.or_none, resume, List.foldl_nil]
  | cons step steps ih =>
    obtain ⟨op, commits⟩ := step
    -- what a step mints stands behind the aliases that it finds
    have hstep : (op.settle rt cap st commits).aliases ref = (st.aliases ref).or
        (minted rt .releases (op.delivers rt cap .releases st commits) ref) := by
      unfold Operation.delivers Operation.settle
      cases hrun : op.run rt cap st with
      | error e => simp [Except.isOk, Except.toBool, minted_nil]
      | ok st' =>
        cases commits with
        | false => simp [minted_nil]
        | true => simpa [Except.isOk, Except.toBool] using op.run_aliases hidentified hrun ref
    have hrest := ih (@Operation.settle_identified rt cap st op hidentified commits)
    rw [hstep] at hrest
    rw [delivered, minted_append, ← Option.or_assoc]
    exact hrest

/-- What was committed has an id of its own. -/
theorem delivered_identifiable {steps : List (Operation × Bool)}
    (hrecord : record ∈ delivered rt cap t st steps) : Identifiable rt t record := by
  induction steps generalizing st with
  | nil => exact absurd hrecord List.not_mem_nil
  | cons step steps ih =>
    obtain ⟨op, commits⟩ := step
    rcases List.mem_append.1 hrecord with hfirst | hrest
    · unfold Operation.delivers at hfirst
      split at hfirst
      · next hcommits =>
        cases hrun : op.run rt cap st with
        | error e =>
          rw [hrun] at hcommits
          simp [Except.isOk, Except.toBool] at hcommits
        | ok st' =>
          obtain ⟨stored, hadmitted⟩ := Operation.records_admitted hrun hfirst
          exact hadmitted.toIdentifiable
      · exact absurd hfirst List.not_mem_nil
    · exact ih hrest

/-- Every stored document was delivered, or was there. -/
theorem stored_of_resume {steps : List (Operation × Bool)} (hidentified : ∀ t, Identified rt t st)
    (hstored : Stored t dataId data (resume rt cap st steps)) : Stored t dataId data st ∨
      ∃ record ∈ delivered rt cap t st steps, record.dataId = dataId ∧ record.data = data := by
  induction steps generalizing st with
  | nil => exact .inl hstored
  | cons step steps ih =>
    obtain ⟨op, commits⟩ := step
    rcases ih (op.settle_identified hidentified commits) hstored with hmid | ⟨record, hrecord, hsays⟩
    · unfold Operation.settle at hmid
      cases hrun : op.run rt cap st with
      | error e =>
        rw [hrun] at hmid
        exact .inl hmid
      | ok st' =>
        cases commits with
        | false =>
          rw [hrun] at hmid
          exact .inl hmid
        | true =>
          rw [hrun] at hmid
          rcases op.run_stored hidentified hrun hmid with hbefore | ⟨record, hrecord, hsays⟩
          · exact .inl hbefore
          · refine .inr ⟨record, List.mem_append_left _ ?_, hsays⟩
            rw [Operation.delivers, hrun]
            exact hrecord
    · exact .inr ⟨record, List.mem_append_right _ hrecord, hsays⟩

theorem identified_empty (t : DataType) : Identified rt t Store.empty := by
  intro dataId row nativeId hrow
  cases hrow

/-- Who owns an identifier: the first release that prints it. -/
theorem minted_eq_some (hidentifiable : ∀ record ∈ records, Identifiable rt .releases record) :
    minted rt .releases records ref = some item ↔ ∃ first record rest,
      records = first ++ record :: rest ∧ ref ∈ printed rt record.data ∧
      (∀ earlier ∈ first, ref ∉ printed rt earlier.data) ∧
      rt.resolveAlias (aliasRef .releases record.dataId) = some item := by
  -- Such a release has a native item, so it mints every identifier that it prints.
  have hsilent : ∀ record ∈ records, (if ref ∈ printed rt record.data then
      rt.resolveAlias (aliasRef .releases record.dataId) else none) = none ↔
      ref ∉ printed rt record.data := by
    intro record hrecord
    obtain ⟨nativeId, hnative⟩ := Option.isSome_iff_exists.1 (hidentifiable record hrecord).resolved
    by_cases hprints : ref ∈ printed rt record.data
    · simp [hprints, hnative]
    · simp [hprints]
  have hminted : minted rt .releases records ref = records.findSome? fun record =>
      if ref ∈ printed rt record.data then rt.resolveAlias (aliasRef .releases record.dataId)
      else none := by
    rw [minted, if_pos rfl]
    rfl
  rw [hminted, List.findSome?_eq_some_iff]
  constructor
  · intro h
    obtain ⟨first, record, rest, rfl, hfound, hnone⟩ := h
    have hprints : ref ∈ printed rt record.data := by
      by_contra hnot
      rw [if_neg hnot] at hfound
      cases hfound
    rw [if_pos hprints] at hfound
    refine ⟨first, record, rest, rfl, hprints, fun earlier hearlier => ?_, hfound⟩
    exact (hsilent earlier (List.mem_append_left _ hearlier)).1 (hnone earlier hearlier)
  · intro h
    obtain ⟨first, record, rest, rfl, hprints, hnone, hnative⟩ := h
    refine ⟨first, record, rest, rfl, by rw [if_pos hprints, hnative], fun earlier hearlier => ?_⟩
    exact (hsilent earlier (List.mem_append_left _ hearlier)).2 (hnone earlier hearlier)

theorem aliases_of_run (steps : List (Operation × Bool)) (ref : AliasRef) :
    (runOperations rt cap steps).aliases ref =
      minted rt .releases (delivered rt cap .releases Store.empty steps) ref := by
  have hrun := @resume_aliases rt cap Store.empty steps identified_empty ref
  rwa [show Store.empty.aliases ref = none from rfl, Option.none_or] at hrun

/-- From empty tables, whatever runs and whatever of it fails: an identifier is an alias of the
    first committed release that prints it, no later step moves or drops it, and every identifier
    a stored release prints is an alias of some item. -/
theorem identifiers_are_first_come (rt : Runtime) (cap : Rat) (steps : List (Operation × Bool)) :
    (∀ ref item, (runOperations rt cap steps).aliases ref = some item ↔ ∃ first record rest,
      delivered rt cap .releases Store.empty steps = first ++ record :: rest ∧
      ref ∈ printed rt record.data ∧ (∀ earlier ∈ first, ref ∉ printed rt earlier.data) ∧
      rt.resolveAlias (aliasRef .releases record.dataId) = some item) ∧
    (∀ later ref item, (runOperations rt cap steps).aliases ref = some item →
      (runOperations rt cap (steps ++ later)).aliases ref = some item) ∧
    ∀ dataId data, Stored .releases dataId data (runOperations rt cap steps) →
      ∀ ref ∈ printed rt data, ((runOperations rt cap steps).aliases ref).isSome = true := by
  have hidentifiable : ∀ record ∈ delivered rt cap .releases Store.empty steps,
      Identifiable rt .releases record :=
    fun record hrecord => delivered_identifiable hrecord
  refine ⟨fun ref item => ?_, fun later ref item halias => ?_,
    fun dataId data hstored ref hprints => ?_⟩
  · rw [aliases_of_run]
    exact minted_eq_some hidentifiable
  · have hsplit : runOperations rt cap (steps ++ later) =
        resume rt cap (runOperations rt cap steps) later := by
      rw [runOperations, List.foldl_append]
      rfl
    have hidentified : ∀ t, Identified rt t (runOperations rt cap steps) := by
      refine runOperations_inv (I := fun st => ∀ t, Identified rt t st) identified_empty ?_ steps
      exact fun hidentified hrun => Operation.run_identified hidentified hrun
    rw [hsplit, resume_aliases hidentified, halias, Option.some_or]
  · rcases @stored_of_resume rt cap .releases dataId data Store.empty steps identified_empty
        hstored with hempty | ⟨record, hrecord, -, hdata⟩
    · cases hempty
    · rw [aliases_of_run]
      by_contra hnone
      rw [Bool.not_eq_true, Option.isSome_eq_false_iff, Option.isNone_iff_eq_none] at hnone
      -- the release itself would have minted it
      rw [minted, if_pos rfl, List.findSome?_eq_none_iff] at hnone
      have hmine := hnone record hrecord
      obtain ⟨nativeId, hnative⟩ := Option.isSome_iff_exists.1 (hidentifiable record hrecord).resolved
      rw [hdata, if_pos (show ref ∈ (aliasRefs rt data).getD [] from hprints), hnative] at hmine
      cases hmine

end

end Tableinator
