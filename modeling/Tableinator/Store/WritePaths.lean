import Tableinator.Store.Coherence

/-! # The write paths keep documents coherent

`persist_record` and `process_batch`, verified against any interference that leaves
a held document alone.  The batch decides by its own `SELECT` and writes accordingly,
so it needs no promise; the single-record upsert decides on its snapshot and writes
on the row it meets, so it needs the two to agree (`GateAgrees`). -/

namespace Tableinator

open Effect Relational Tableinator.Graph

variable {rt : Runtime} {t t' : DataType} {dataId : String} {data : Document} {now : Time}
variable {answers : ∀ {ρ}, Statement ρ → Store → Store → Prop} {l : Local Slot Store}

/-- The entity row of the document carries this hash. -/
def StoresHash (t : DataType) (dataId hash : String) (st : Store) : Prop :=
  ((st.entities t).lookup dataId).map (·.hash) = some hash

def Store.hash (st : Store) (t : DataType) (dataId : String) : Option String :=
  ((st.entities t).lookup dataId).map (·.hash)

/-- The hash gate on the row of the table. -/
def HashUnchanged (t : DataType) (dataId : String) (sha256 : Json) (st : Store) : Prop :=
  sameHash (st.hash t dataId) sha256 = true

instance (dataId : String) (sha256 : Json) (st : Store) : Decidable (HashUnchanged t dataId sha256 st) :=
  inferInstanceAs (Decidable (_ = true))

theorem hashUnchanged_str {hash : String} {st : Store} :
    HashUnchanged t dataId (.str hash) st ↔ StoresHash t dataId hash st := sameHash_str

/-- The row a single-record upsert meets and the row of its snapshot pass the hash gate alike:
    a payload that was stored still is, and one that was not is not met as stored, unless as
    this very payload. -/
def GateAgrees : ∀ {ρ}, Statement ρ → Store → Store → Prop
  | _, .upsertRecord t _ incoming, snapshot, latest =>
      (StoresHash t incoming.dataId incoming.hash snapshot →
        StoresHash t incoming.dataId incoming.hash latest) ∧
      (¬StoresHash t incoming.dataId incoming.hash snapshot →
        StoresHash t incoming.dataId incoming.hash latest →
        Stored t incoming.dataId incoming.data latest)
  | _, _, _, _ => True

theorem gateAgrees_self {ρ : Type} (op : Statement ρ) (st : Store) : GateAgrees op st st := by
  cases op <;> first | trivial | exact ⟨id, fun hnot h => absurd h hnot⟩

/-! ## One record -/

theorem contentChanged_eq_false_iff (t : DataType) (now : Time) (incoming : Incoming) (st : Store) :
    contentChanged ((Statement.upsertRecord t now incoming).read st) = false ↔
      StoresHash t incoming.dataId incoming.hash st := by
  cases h : (st.entities t).lookup incoming.dataId with
  | none => simp [contentChanged, Statement.read, StoresHash, h]
  | some row => simp [contentChanged, Statement.read, StoresHash, h]

theorem lookup_upsertRecord (t : DataType) (now : Time) (incoming : Incoming)
    (snapshot latest : Store) (dead : Finset Slot) :
    ((((Statement.upsertRecord t now incoming).change snapshot dead).apply latest).entities t).lookup
      incoming.dataId = some (incoming.revise t now ((latest.entities t).lookup incoming.dataId)) := by
  rw [Statement.change, lookup_entities_apply]
  simp

/-- Every payload after a single-record upsert was there, or is its own written over another
    hash. -/
theorem payloads_upsertRecord {incoming : Incoming} {snapshot latest : Store} {dead : Finset Slot}
    {row' : EntityRow} (hrow' : ((((Statement.upsertRecord t' now incoming).change snapshot
      dead).apply latest).entities t).lookup dataId = some row') :
    (∃ row, (latest.entities t).lookup dataId = some row ∧ row.data = row'.data) ∨
      t = t' ∧ dataId = incoming.dataId ∧ row'.data = .obj incoming.data ∧
        ¬StoresHash t' incoming.dataId incoming.hash latest := by
  rw [Statement.change, lookup_entities_apply] at hrow'
  split at hrow'
  · next hmine =>
    obtain ⟨rfl, hid⟩ := hmine
    obtain rfl := List.mem_singleton.1 hid
    obtain rfl := Option.some.inj hrow'
    cases hrow : (latest.entities t).lookup incoming.dataId with
    | none => exact .inr ⟨rfl, rfl, rfl, by simp [StoresHash, hrow]⟩
    | some row =>
      by_cases hhash : row.hash = incoming.hash
      · exact .inl ⟨row, rfl, by simp [Incoming.revise, hhash]⟩
      · exact .inr ⟨rfl, rfl, by simp [Incoming.revise, hhash], by simp [StoresHash, hrow, hhash]⟩
  · exact .inl ⟨row', hrow', rfl⟩

/-- Every payload after a batch upsert was there, or is one of its own. -/
theorem payloads_upsertRecords {rows : List Incoming} {snapshot latest : Store} {dead : Finset Slot}
    {row' : EntityRow} (hrow' : ((((Statement.upsertRecords t' now rows).change snapshot
      dead).apply latest).entities t).lookup dataId = some row') :
    (∃ row, (latest.entities t).lookup dataId = some row ∧ row.data = row'.data) ∨
      t = t' ∧ ∃ incoming ∈ rows, incoming.dataId = dataId ∧ row'.data = .obj incoming.data := by
  rw [Statement.change, lookup_entities_apply] at hrow'
  split at hrow'
  · next hmine =>
    cases hfind : rows.find? (·.dataId = dataId) with
    | none =>
      simp only [hfind] at hrow'
      exact .inl ⟨row', hrow', rfl⟩
    | some incoming =>
      simp only [hfind, Option.some.injEq] at hrow'
      refine .inr ⟨hmine.1, incoming, List.mem_of_find?_eq_some hfind,
        by simpa using List.find?_some hfind, ?_⟩
      rw [← hrow']
      cases (latest.entities t).lookup dataId with
      | none => rfl
      | some row => rfl
  · exact .inl ⟨row', hrow', rfl⟩

theorem guard_upsertRecord (t : DataType) (now : Time) (incoming : Incoming)
    (snapshot latest : Store) (dead : Finset Slot) :
    .entity t incoming.dataId ∈
      ((Statement.upsertRecord t now incoming).change snapshot dead).writes latest := by
  simp [Statement.change, Change.writes]

theorem stored_upsertRecord (now : Time) {incoming : Incoming} {latest : Store} (snapshot : Store)
    (dead : Finset Slot) (hsame : StoresHash t incoming.dataId incoming.hash latest →
      Stored t incoming.dataId incoming.data latest) :
    Stored t incoming.dataId incoming.data
      (((Statement.upsertRecord t now incoming).change snapshot dead).apply latest) := by
  rw [Stored, lookup_upsertRecord]
  cases hrow : (latest.entities t).lookup incoming.dataId with
  | none => rfl
  | some row =>
    by_cases hhash : row.hash = incoming.hash
    · have hdata : row.data = .obj incoming.data :=
        (hsame (by simp [StoresHash, hrow, hhash])).payload hrow
      simp [Incoming.revise, hhash, hdata]
    · simp [Incoming.revise, hhash]

theorem coherent_upsertRecord (now : Time) {incoming : Incoming} {latest : Store} (snapshot : Store)
    (dead : Finset Slot) (h : Coherent rt t incoming.dataId latest)
    (hsame : StoresHash t incoming.dataId incoming.hash latest) :
    Coherent rt t incoming.dataId
      (((Statement.upsertRecord t now incoming).change snapshot dead).apply latest) := by
  refine h.of_data ?_ fun _ _ _ _ => Iff.rfl
  rw [lookup_upsertRecord]
  obtain ⟨row, hrow, hhash⟩ := Option.map_eq_some_iff.1 hsame
  simp [hrow, Incoming.revise, hhash]

theorem stored_attachAliasTargets {targets : List (AliasRef × NativeId)}
    (hguard : .entity t dataId ∈ l.held) (hstored : Stored t dataId data l.view) :
    Ensures rt answers t dataId (attachAliasTargets targets)
      (fun l _ => .entity t dataId ∈ l.held ∧ Stored t dataId data l.view) l := by
  unfold attachAliasTargets unlessEmpty
  split
  · exact ⟨hguard, hstored⟩
  · refine held_await hguard fun snapshot latest dead _ hlatest _ => ?_
    have hstored : Stored t dataId data latest := hstored.of_agree hlatest
    exact ⟨Finset.mem_union_left _ hguard, hstored⟩

theorem spares_attachAliasTargets (targets : List (AliasRef × NativeId)) :
    Program.Issues (fun op => ∀ snapshot dead, (op.change snapshot dead).Spares rt t dataId)
      (attachAliasTargets targets) :=
  issues_unlessEmpty fun _ _ => spares_aliases targets

theorem disciplined_of_guard {held : Finset Slot} (h : .entity t dataId ∈ held) :
    (documentGuard rt t dataId).Disciplined held := fun _ _ _ => h

theorem Written.kept (h : Written rt t dataId data l) : Kept rt t dataId l :=
  ⟨disciplined_of_guard h.guard, h.coherent⟩

/-- The session rewrote the document, or left its edges alone. -/
def Processed (rt : Runtime) (t : DataType) (dataId : String) (l : Local Slot Store) : Prop :=
  (∃ data, Written rt t dataId data l) ∨ Intact rt t dataId l

theorem Processed.kept (h : Processed rt t dataId l) : Kept rt t dataId l := by
  rcases h with ⟨data, hwritten⟩ | hintact
  · exact hwritten.kept
  · exact hintact.kept

/-- `persist_record` of its own document. -/
theorem persistRecord_ensures (h : Intact rt t dataId l) :
    Ensures rt GateAgrees t dataId (persistRecord rt now t dataId data)
      (fun l _ => Processed rt t dataId l) l := by
  unfold persistRecord
  cases rt.resolveAlias (aliasRef t dataId) with
  | none => trivial
  | some gmItemId =>
    cases rowHash rt t dataId data (contentHash data) with
    | none => trivial
    | some hash =>
      simp only [Program.wlp_bind, Program.wlp_await]
      rintro reply l' ⟨snapshot, latest, dead, hmoves, hspans, hagrees, rfl, rfl⟩
      have hguard : .entity t dataId ∈ l.held ∪ _ := Finset.mem_union_right l.held
        (guard_upsertRecord t now (recordParameters rt t hash dataId data gmItemId) snapshot latest dead)
      refine ⟨disciplined_of_guard hguard, ?_⟩
      cases aliasTargets rt t [(data, gmItemId)] with
      | none => trivial
      | some targets =>
        simp only [Program.wlp_bind]
        -- the gate is taken on the snapshot, the row is written over what the upsert meets
        cases hchanged : contentChanged (engine.read (Statement.upsertRecord t now
            (recordParameters rt t hash dataId data gmItemId)) snapshot) with
        | true =>
          have hgate : ¬StoresHash t dataId hash snapshot := by
            intro hsame
            have hfalse := (contentChanged_eq_false_iff t now
              (recordParameters rt t hash dataId data gmItemId) snapshot).2 hsame
            exact absurd (hchanged.symm.trans hfalse) (by simp)
          have hstored : Stored t dataId data _ :=
            stored_upsertRecord now snapshot dead (hagrees.2 hgate)
          refine Program.wlp_mono (stored_attachAliasTargets hguard hstored) fun l _ hl => ?_
          simp only [if_true, Program.wlp_bind]
          have hmem : (dataId, data) ∈ [(dataId, data)] := List.mem_cons_self
          have hunique : ∀ data', (dataId, data') ∈ [(dataId, data)] → data' = data := by simp
          refine Program.wlp_mono (written_writeDocumentGraph hmem hunique hl.1 hl.2)
            fun l _ hl => ?_
          exact .inl ⟨data, hl⟩
        | false =>
          have hsame : StoresHash t dataId hash snapshot :=
            (contentChanged_eq_false_iff t now
              (recordParameters rt t hash dataId data gmItemId) snapshot).1 hchanged
          refine Program.wlp_mono (intact_of_issues ⟨⟨disciplined_of_guard hguard, coherent_upsertRecord
            now snapshot dead (h.kept.latest hmoves hspans) (hagrees.1 hsame)⟩, fun slot hslot hconcerns => ?_⟩
            (spares_attachAliasTargets targets)) fun l _ hl => .inr hl
          rcases Finset.mem_union.1 hslot with hheld | hwrites
          · exact h.free slot hheld hconcerns
          · simp only [engine, Statement.change, Change.writes, List.mem_toFinset, List.mem_map] at hwrites
            obtain ⟨other, _, rfl⟩ := hwrites
            rw [hconcerns.2]

/-- `persist_record` of another document. -/
theorem spares_persistRecord {dataId' : String} (hother : ¬(t' = t ∧ dataId' = dataId)) :
    Program.Issues (fun op => ∀ snapshot dead, (op.change snapshot dead).Spares rt t dataId)
      (persistRecord rt now t' dataId' data) := by
  refine issues_persistRecord (fun hash gmItemId _ _ _ => spares_entities fun ht hmem => ?_)
    (fun targets _ _ => spares_aliases targets) (spares_writeDocumentGraph fun ht data' hmem => ?_)
  · exact absurd ⟨ht.symm, (List.mem_singleton.1 hmem).symm⟩ hother
  · exact hother ⟨ht, (Prod.mk.inj (List.mem_singleton.1 hmem)).1.symm⟩

/-- What `persist_record` does to a document. -/
theorem persistRecord_processes (t' : DataType) (dataId' : String) (h : Intact rt t dataId l) :
    Ensures rt GateAgrees t dataId (persistRecord rt now t' dataId' data)
      (fun l _ => Processed rt t dataId l) l := by
  by_cases hsame : t' = t ∧ dataId' = dataId
  · obtain ⟨rfl, rfl⟩ := hsame
    exact persistRecord_ensures h
  · exact Program.wlp_mono (intact_of_issues h (spares_persistRecord hsame)) fun l _ h => .inr h

/-- `persist_record` keeps every document. -/
theorem persistRecord_verifies (t' : DataType) (dataId' : String) :
    (documentGuard rt t dataId).Verifies GateAgrees (persistRecord rt now t' dataId' data) :=
  fun _ hv => Program.wlp_mono (persistRecord_processes t' dataId' (intact_start hv))
    fun _ _ h => h.kept.coherent

/-! ## One batch -/

section

variable {messages records : List BatchRecord} {record : BatchRecord} {existing : List Existing}

theorem putRecord_ids (record : BatchRecord) (records : List BatchRecord) :
    (putRecord record records).map (·.dataId) =
      if record.dataId ∈ records.map (·.dataId) then records.map (·.dataId)
      else records.map (·.dataId) ++ [record.dataId] := by
  induction records with
  | nil => rfl
  | cons head records ih =>
    by_cases hhead : head.dataId = record.dataId
    · simp [putRecord, hhead]
    · rw [putRecord, if_neg hhead, List.map_cons, ih]
      by_cases hmem : record.dataId ∈ records.map (·.dataId)
      · have hcons : record.dataId ∈ (head :: records).map (·.dataId) := List.mem_cons_of_mem _ hmem
        rw [if_pos hmem, if_pos hcons, List.map_cons]
      · have hcons : record.dataId ∉ (head :: records).map (·.dataId) := by
          simpa [Ne.symm hhead] using hmem
        rw [if_neg hmem, if_neg hcons, List.map_cons, List.cons_append]

/-- The batch writes one record per id. -/
theorem latest_nodup (messages : List BatchRecord) : ((latest messages).map (·.dataId)).Nodup := by
  have hloop : ∀ (messages records : List BatchRecord), (records.map (·.dataId)).Nodup →
      ((messages.foldl (fun records record => putRecord record records) records).map
        (·.dataId)).Nodup := by
    intro messages
    induction messages with
    | nil => exact fun _ h => h
    | cons record messages ih =>
      intro records h
      refine ih _ ?_
      rw [putRecord_ids]
      split
      · exact h
      · next hfresh =>
        rw [List.nodup_append_comm]
        exact List.nodup_cons.2 ⟨hfresh, h⟩
  exact hloop messages [] List.nodup_nil

theorem latest_injective {a b : BatchRecord} (ha : a ∈ latest messages) (hb : b ∈ latest messages)
    (hid : a.dataId = b.dataId) : a = b :=
  List.inj_on_of_nodup_map (latest_nodup messages) ha hb hid

theorem mem_of_mem_resolved {pair : BatchRecord × NativeId} (h : pair ∈ resolved rt t records) :
    pair.1 ∈ records ∧ rt.resolveAlias (aliasRef t pair.1.dataId) = some pair.2 := by
  simp only [resolved, List.mem_filterMap, Option.map_eq_some_iff] at h
  obtain ⟨record, hmem, nativeId, hresolve, rfl⟩ := h
  exact ⟨hmem, hresolve⟩

/-- With none missing, every record is resolved. -/
theorem mem_resolved
    (hmissing : records.filter (fun record => (rt.resolveAlias (aliasRef t record.dataId)).isNone) = [])
    (hrecord : record ∈ records) : ∃ nativeId, (record, nativeId) ∈ resolved rt t records := by
  have hsome := List.filter_eq_nil_iff.1 hmissing record hrecord
  cases hnative : rt.resolveAlias (aliasRef t record.dataId) with
  | none => simp [hnative] at hsome
  | some nativeId => exact ⟨nativeId, List.mem_filterMap.2 ⟨record, hrecord, by simp [hnative]⟩⟩

theorem mem_changedDocuments :
    (dataId, data) ∈ changedDocuments existing (resolved rt t records) ↔
      ∃ record nativeId, (record, nativeId) ∈ resolved rt t records ∧
        unchanged existing record = false ∧ record.dataId = dataId ∧ record.data = data := by
  simp only [changedDocuments, changedRecords, List.mem_map, List.mem_filter, Prod.exists,
    Prod.mk.injEq, Bool.not_eq_true']
  constructor
  · rintro ⟨record, nativeId, ⟨hmem, hchanged⟩, hid, hdata⟩
    exact ⟨record, nativeId, hmem, hchanged, hid, hdata⟩
  · rintro ⟨record, nativeId, hmem, hchanged, hid, hdata⟩
    exact ⟨record, nativeId, ⟨hmem, hchanged⟩, hid, hdata⟩

theorem mem_recordsToUpsert {incoming : Incoming} :
    incoming ∈ recordsToUpsert rt existing (resolved rt t' records) t ↔
      ∃ record nativeId hash, (record, nativeId) ∈ resolved rt t' records ∧
        unchanged existing record = false ∧ record.rowHash rt t = some hash ∧
        incoming = recordParameters rt t hash record.dataId record.data nativeId := by
  simp only [recordsToUpsert, changedRecords, List.mem_insertionSort, List.mem_filterMap,
    List.mem_filter, Prod.exists, Bool.not_eq_true', Option.map_eq_some_iff]
  constructor
  · rintro ⟨record, nativeId, ⟨hmem, hchanged⟩, hash, hhash, rfl⟩
    exact ⟨record, nativeId, hash, hmem, hchanged, hhash, rfl⟩
  · rintro ⟨record, nativeId, hash, hmem, hchanged, hhash, rfl⟩
    exact ⟨record, nativeId, ⟨hmem, hchanged⟩, hash, hhash, rfl⟩

/-- With none refused, a changed record has a row. -/
theorem rowHash_of_changed {nativeId : NativeId}
    (hrefused : refusedRecords rt existing (resolved rt t' records) t = [])
    (hmem : (record, nativeId) ∈ resolved rt t' records) (hchanged : unchanged existing record = false) :
    ∃ hash, record.rowHash rt t = some hash := by
  have hkept := List.filter_eq_nil_iff.1 hrefused (record, nativeId)
    (List.mem_filter.2 ⟨hmem, by simp [hchanged]⟩)
  cases hhash : record.rowHash rt t with
  | none => simp [hhash] at hkept
  | some hash => exact ⟨hash, rfl⟩

/-- A backfill or a refresh keeps the payload of every row. -/
theorem spares_update {ids : List String} {f : String → EntityRow → EntityRow}
    (hdata : ∀ dataId row, (f dataId row).data = row.data) :
    (Change.entities t' ids fun dataId row => row.map (f dataId)).Spares rt t dataId := by
  refine spares_entities fun _ _ row => ?_
  cases row with
  | none => rfl
  | some row => simp [hdata]

theorem spares_upsertRecords {rows : List Incoming} {snapshot : Store} {dead : Finset Slot}
    (hrows : t' = t → ∀ incoming ∈ rows, incoming.dataId ≠ dataId) :
    ((Statement.upsertRecords t' now rows).change snapshot dead).Spares rt t dataId := by
  refine spares_entities fun ht hmem => ?_
  obtain ⟨incoming, hincoming, hid⟩ := List.mem_map.1 hmem
  exact absurd hid (hrows ht.symm incoming hincoming)

/-- Before its upsert a batch writes no payload. -/
theorem spares_refreshUnchanged (existing : List Existing)
    (identified : List (BatchRecord × NativeId)) :
    Program.Issues (fun op => ∀ snapshot dead, (op.change snapshot dead).Spares rt t dataId)
      (refreshUnchanged rt now t' existing identified) := by
  refine issues_refreshUnchanged (fun _ _ _ => ?_) (fun rows _ _ => ?_) fun rows _ _ => ?_
  · exact spares_update (f := fun _ row => { row with updatedAt := now }) fun _ _ => rfl
  · exact spares_update (f := fun dataId row => { row with
      media := rows.lookup dataId, updatedAt := now }) fun _ _ => rfl
  · exact spares_update (f := fun dataId row => { row with
      gmItemId := rows.lookup dataId, updatedAt := now }) fun _ _ => rfl

theorem spares_writeChanged {targets : List (AliasRef × NativeId)}
    (hother : t' = t → ∀ record nativeId, (record, nativeId) ∈ resolved rt t' records →
      unchanged existing record = false → record.dataId ≠ dataId) :
    Program.Issues (fun op => ∀ snapshot dead, (op.change snapshot dead).Spares rt t dataId)
      (writeChanged rt now t' existing (resolved rt t' records) targets) := by
  refine issues_writeChanged (fun _ _ => spares_upsertRecords fun ht incoming h => ?_)
    (fun _ _ => spares_aliases targets) (spares_writeDocumentGraph fun ht data h => ?_)
  · obtain ⟨record, nativeId, hash, hmem, hchanged, -, rfl⟩ := mem_recordsToUpsert.1 h
    exact hother ht record nativeId hmem hchanged
  · obtain ⟨record, nativeId, hmem, hchanged, hid, _⟩ := mem_changedDocuments.1 h
    exact hother ht record nativeId hmem hchanged hid

/-- A record the batch's gate lets through is written whole. -/
theorem written_writeChanged {targets : List (AliasRef × NativeId)} {nativeId : NativeId}
    (hmem : (record, nativeId) ∈ resolved rt t (latest messages))
    (hchanged : unchanged existing record = false) :
    Ensures rt answers t record.dataId
      (writeChanged rt now t existing (resolved rt t (latest messages)) targets)
      (fun l _ => Written rt t record.dataId record.data l) l := by
  have hunique : ∀ {other : BatchRecord} {nativeId' : NativeId},
      (other, nativeId') ∈ resolved rt t (latest messages) → other.dataId = record.dataId →
      other = record := fun hother hid =>
    latest_injective (mem_of_mem_resolved hother).1 (mem_of_mem_resolved hmem).1 hid
  unfold writeChanged
  dsimp only
  split
  · trivial
  · next hrefused =>
    obtain ⟨hash, hhash⟩ := rowHash_of_changed (not_not.1 hrefused) hmem hchanged
    have hincoming := mem_recordsToUpsert (t := t).2 ⟨record, nativeId, hash, hmem, hchanged, hhash, rfl⟩
    simp only [Program.wlp_bind]
    rw [unlessEmpty, if_neg (by simpa using List.ne_nil_of_mem hincoming), Program.wlp_await]
    rintro reply l' ⟨snapshot, latest', dead, hmoves, hspans, _, _, rfl⟩
    have hids : record.dataId ∈ (recordsToUpsert rt existing (resolved rt t (latest messages)) t).map
        (·.dataId) := List.mem_map_of_mem (f := (·.dataId)) hincoming
    obtain ⟨found, hfound⟩ : ∃ found, (recordsToUpsert rt existing (resolved rt t (latest messages)) t).find?
        (·.dataId = record.dataId) = some found := by
      rw [← Option.isSome_iff_exists, List.find?_isSome]
      exact ⟨_, hincoming, by simp⟩
    have hdata : found.data = record.data := by
      obtain ⟨other, nativeId', _, hother, _, _, rfl⟩ :=
        mem_recordsToUpsert.1 (List.mem_of_find?_eq_some hfound)
      have hid := List.find?_some hfound
      simp only [decide_eq_true_eq] at hid
      rw [recordParameters_data, hunique hother hid]
    have hstored : Stored t record.dataId record.data (((Statement.upsertRecords t now
        (recordsToUpsert rt existing (resolved rt t (latest messages)) t)).change snapshot dead).apply
          latest') := by
      rw [Stored, Statement.change, lookup_entities_apply, if_pos ⟨rfl, hids⟩]
      simp only [hfound]
      cases (latest'.entities t).lookup record.dataId with
      | none => simp [Incoming.overwrite, Incoming.insertedRow, hdata]
      | some row => simp [Incoming.overwrite, hdata]
    have hguard : Slot.entity t record.dataId ∈ l.held ∪ ((Statement.upsertRecords t now
        (recordsToUpsert rt existing (resolved rt t (latest messages)) t)).change snapshot dead).writes
          latest' := by
      refine Finset.mem_union_right _ ?_
      simp only [Statement.change, Change.writes, List.mem_toFinset, List.mem_map, List.mem_filter]
      exact ⟨record.dataId, ⟨by simpa using hids, by simp [hfound]⟩, rfl⟩
    refine ⟨disciplined_of_guard hguard, ?_⟩
    refine Program.wlp_mono (stored_attachAliasTargets hguard hstored) fun l _ hl => ?_
    refine written_writeDocumentGraph (mem_changedDocuments.2 ⟨record, nativeId, hmem, hchanged, rfl, rfl⟩)
      (fun data' h => ?_) hl.1 hl.2
    obtain ⟨other, nativeId', hother, _, hid, rfl⟩ := mem_changedDocuments.1 h
    rw [hunique hother hid]

/-- `process_batch` rewrites the records its gate lets through, and no others. -/
theorem processBatch_ensures (h : Intact rt t dataId l) :
    Ensures rt answers t dataId (processBatch rt now t messages)
      (fun l _ => Processed rt t dataId l) l := by
  simp only [processBatch, Program.wlp_bind]
  refine Program.wlp_mono (intact_of_issues h ((Program.issues_await _).2 fun _ _ => spares_keep))
    fun l existing hintact => ?_
  split
  · trivial
  · next hmissing =>
    split
    · trivial
    · next targets _ =>
      simp only [Program.wlp_bind]
      refine Program.wlp_mono (intact_of_issues hintact (spares_refreshUnchanged existing _))
        fun l _ hintact => ?_
      by_cases hmine : ∃ record ∈ latest messages, record.dataId = dataId ∧
          unchanged existing record = false
      · obtain ⟨record, hrecord, rfl, hchanged⟩ := hmine
        obtain ⟨nativeId, hmem⟩ := mem_resolved (not_not.1 hmissing) hrecord
        exact Program.wlp_mono (written_writeChanged hmem hchanged) fun l _ hl => .inl ⟨_, hl⟩
      · refine Program.wlp_mono (intact_of_issues hintact (spares_writeChanged ?_)) fun l _ hl => .inr hl
        rintro - record nativeId hmem hchanged hid
        exact hmine ⟨record, (mem_of_mem_resolved hmem).1, hid, hchanged⟩

/-- `process_batch` without the document. -/
theorem spares_processBatch
    (hother : t' = t → ∀ record ∈ latest messages, record.dataId ≠ dataId) :
    Program.Issues (fun op => ∀ snapshot dead, (op.change snapshot dead).Spares rt t dataId)
      (processBatch rt now t' messages) := by
  refine issues_processBatch (fun _ _ => spares_keep)
    (fun existing => spares_refreshUnchanged existing _) fun existing targets =>
      spares_writeChanged fun ht record nativeId hmem _ => ?_
  exact hother ht record (mem_of_mem_resolved hmem).1

/-- What `process_batch` does to a document. -/
theorem processBatch_processes (t' : DataType) (messages : List BatchRecord)
    (h : Intact rt t dataId l) :
    Ensures rt answers t dataId (processBatch rt now t' messages)
      (fun l _ => Processed rt t dataId l) l := by
  by_cases ht : t' = t
  · subst ht
    exact processBatch_ensures h
  · exact Program.wlp_mono (intact_of_issues h (spares_processBatch fun h => absurd h ht))
      fun l _ h => .inr h

theorem processBatch_verifies (t' : DataType) (messages : List BatchRecord) :
    (documentGuard rt t dataId).Verifies answers (processBatch rt now t' messages) :=
  fun _ hv => Program.wlp_mono (processBatch_processes t' messages (intact_start hv))
    fun _ _ h => h.kept.coherent

end

end Tableinator
