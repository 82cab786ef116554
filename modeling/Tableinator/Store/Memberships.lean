import Tableinator.Store.Sweep

/-! # Who answers for a membership

`reconcile_additive_edges` reads its pages, inserts what they assert and deletes what they do
not, each in a statement of its own, while `process_batch` and `persist_record` go on writing
artists.  A write owes the `member_of` rows of the payloads it stores until it has inserted
them (`Debt`); the sweep has yet to read the documents after its cursor, and to insert what
it read (`Scan`). -/

namespace Tableinator

open Effect Relational Tableinator.Graph

/-! ## The writes -/

/-- A transaction that writes artists. -/
inductive ArtistWrite where
  | processBatch (now : Time) (messages : List BatchRecord)
  | persistRecord (now : Time) (dataId : String) (data : Document)

def ArtistWrite.program (rt : Runtime) : ArtistWrite → Transaction PUnit
  | .processBatch now messages => do
    let _ ← Tableinator.processBatch rt now .artists messages
    pure ⟨⟩
  | .persistRecord now dataId data => do
    let _ ← Tableinator.persistRecord rt now .artists dataId data
    pure ⟨⟩

/-- The statement inserts the row. -/
def Inserts (edge : EdgeRow .memberOf) : {ρ : Type} → Statement ρ → Prop
  | _, .insertEdges .memberOf rows => edge ∈ rows
  | _, _ => False

/-! ## What a write owes -/

/-- Whether a write has upserted, and the rows it has still to insert. -/
structure Debt where
  upserted : Bool
  owed : List (EdgeRow .memberOf)

namespace Debt

variable (rt : Runtime)

def rowsOf (incoming : Incoming) : List (EdgeRow .memberOf) :=
  asserts rt .memberOf incoming.dataId (.obj incoming.data)

/-- An upsert that found another payload owes the rows of the new one; the insert pays them. -/
def next (d : Debt) : {ρ : Type} → Statement ρ → ρ → Debt
  | _, .upsertRecord _ _ incoming, prior =>
      ⟨true, if contentChanged prior then rowsOf rt incoming else []⟩
  | _, .upsertRecords _ _ rows, _ => ⟨true, rows.flatMap (rowsOf rt)⟩
  | _, .insertEdges .memberOf rows, _ => { d with owed := d.owed.filter (· ∉ rows) }
  | _, _, _ => d

/-- A write upserts once, inserts what it owes, and deletes no `member_of` row. -/
def Allows (d : Debt) : {ρ : Type} → Statement ρ → Prop
  | _, .upsertRecord t _ _ => t = .artists ∧ d.upserted = false
  | _, .upsertRecords t _ _ => t = .artists ∧ d.upserted = false
  | _, .insertEdges .memberOf rows => ∀ edge ∈ rows, edge ∈ d.owed
  | _, .deleteScoped r _ => r ≠ .memberOf
  | _, .purgeEdges _ _ _ => False
  | _, .purgeRows _ _ => False
  | _, .insertAsserted _ _ => False
  | _, .deleteUnasserted _ _ => False
  | _, _ => True

/-- The write keeps these rules. -/
abbrev Pays {α : Type} (p : Transaction α) (Q : Debt → α → Prop) (d : Debt) : Prop :=
  p.wpOk Allows (next rt) Q d

variable {rt} {d : Debt} {α β : Type}

theorem pays_unlessEmpty {rows : List β} {op : Statement PUnit} {Q : Debt → PUnit → Prop}
    (hallows : d.Allows op) (hnext : Q (d.next rt op ⟨⟩) ⟨⟩) (hempty : rows = [] → Q d ⟨⟩) :
    Pays rt (unlessEmpty rows op) Q d := by
  unfold unlessEmpty
  split
  · next h => exact hempty (List.isEmpty_iff.1 h)
  · exact ⟨hallows, fun _ => hnext⟩

/-! ### Both paths pay -/

theorem pays_writeDocumentGraph {documents : List (String × Document)}
    (howed : ∀ edge, edge ∈ d.owed ↔ edge ∈ edgeRows rt .artists documents .memberOf) :
    Pays rt (writeDocumentGraph rt .artists documents) (fun d _ => d.owed = []) d := by
  refine Program.wpOk_seq (Program.wpOk_forM (fun _ d' => d' = d) rfl ?_) fun d₁ _ hd₁ => ?_
  · -- vertices are no debt, and no scoped delete is on `member_of`
    intro v rest d' hd'
    exact Program.wpOk_await.2 ⟨trivial, fun _ => hd'⟩
  subst hd₁
  refine Program.wpOk_seq (Program.wpOk_forM
    (fun rs d' => d' = d₁ ∧ ∀ r ∈ rs, r ≠ .memberOf) ⟨rfl, ?_⟩ ?_) fun d₂ _ hd₂ => ?_
  · intro r hr hmember
    subst hmember
    simp [replacedOrder] at hr
  · intro r rest d' hd'
    obtain ⟨rfl, hrest⟩ := hd'
    exact Program.wpOk_await.2 ⟨hrest r List.mem_cons_self, fun _ =>
      ⟨rfl, fun r' hr' => hrest r' (List.mem_cons_of_mem _ hr')⟩⟩
  obtain ⟨rfl, -⟩ := hd₂
  -- The insert of `member_of` is the one that pays, and it comes at most once.
  refine Program.wpOk_mono (Program.wpOk_forM (fun rs d' => rs.Nodup ∧
    if .memberOf ∈ rs then d' = d₂ else d'.owed = []) ⟨edgeRelations_nodup.filter _, ?_⟩ ?_)
    fun d' _ hd' => by simpa using hd'.2
  · split
    · rfl
    · next hnone =>
      rw [List.eq_nil_iff_forall_not_mem]
      intro edge hedge
      refine hnone (List.mem_filter.2 ⟨mem_edgeRelations _, ?_⟩)
      simpa using List.ne_nil_of_mem ((howed edge).1 hedge)
  · intro r rest d' hd'
    obtain ⟨hdistinct, hd'⟩ := hd'
    obtain ⟨hfresh, hnodup⟩ := List.nodup_cons.1 hdistinct
    by_cases hr : r = .memberOf
    · subst hr
      rw [if_pos List.mem_cons_self] at hd'
      subst hd'
      refine Program.wpOk_await.2 ⟨fun edge hedge => (howed edge).2 hedge, fun _ => ⟨hnodup, ?_⟩⟩
      rw [if_neg hfresh]
      simp only [next, List.filter_eq_nil_iff, decide_eq_true_eq, not_not]
      exact fun edge hedge => (howed edge).1 hedge
    · have hmem : EdgeRelation.memberOf ∈ r :: rest ↔ .memberOf ∈ rest := by
        simp [Ne.symm hr]
      simp only [hmem] at hd'
      have hsame : d'.Allows (.insertEdges r (edgeRows rt .artists documents r)) ∧
          d'.next rt (.insertEdges r (edgeRows rt .artists documents r)) ⟨⟩ = d' := by
        cases r <;> first | exact absurd rfl hr | exact ⟨trivial, rfl⟩
      refine Program.wpOk_await.2 ⟨hsame.1, fun _ => ⟨hnodup, ?_⟩⟩
      rw [hsame.2]
      exact hd'

theorem pays_persistRecord {now : Time} {dataId : String} {data : Document} (hclear : d = ⟨false, []⟩) :
    Pays rt (persistRecord rt now .artists dataId data) (fun d _ => d.owed = []) d := by
  subst hclear
  unfold persistRecord
  cases rt.resolveAlias (aliasRef .artists dataId) with
  | none => trivial
  | some gmItemId =>
    simp only
    cases rowHash rt .artists dataId data (contentHash data) with
    | none => trivial
    | some hash =>
      refine Program.wpOk_await_bind.2 ⟨⟨rfl, rfl⟩, fun prior => ?_⟩
      cases aliasTargets rt .artists [(data, gmItemId)] with
      | none => trivial
      | some targets =>
        refine Program.wpOk_bind.2 (pays_unlessEmpty trivial ?_ fun _ => ?_)
        all_goals
          simp only [next]
          cases contentChanged prior with
          | true =>
            refine Program.wpOk_seq (pays_writeDocumentGraph fun edge => ?_) fun d _ hd => hd
            rw [mem_edgeRows]
            simp only [if_true, List.mem_singleton, Prod.mk.injEq]
            simp [rowsOf, recordParameters, asserts, deriveStored, AdditiveRelation.table,
              AdditiveRelation.relation]
          | false => exact rfl

theorem pays_refreshUnchanged {now : Time} {existing : List Existing}
    {identified : List (BatchRecord × NativeId)} :
    Pays rt (refreshUnchanged rt now .artists existing identified) (fun d' _ => d' = d) d := by
  refine Program.wpOk_bind.2 (pays_unlessEmpty trivial ?_ fun _ => ?_)
  all_goals
    refine Program.wpOk_bind.2 (pays_unlessEmpty trivial ?_ fun _ => ?_)
    all_goals exact pays_unlessEmpty trivial rfl fun _ => rfl

theorem pays_writeChanged {now : Time} {existing : List Existing} {records : List BatchRecord}
    {targets : List (AliasRef × NativeId)} (hclear : d = ⟨false, []⟩) :
    Pays rt (writeChanged rt now .artists existing (resolved rt .artists records) targets)
      (fun d _ => d.owed = []) d := by
  subst hclear
  unfold writeChanged
  dsimp only
  split
  · trivial
  next hrefused =>
  -- the rows of the records sent are those of the documents written
  have howed : ∀ edge, edge ∈ (recordsToUpsert rt existing (resolved rt .artists records) .artists).flatMap
      (rowsOf rt) ↔ edge ∈ edgeRows rt .artists
        (changedDocuments existing (resolved rt .artists records)) .memberOf := by
    intro edge
    rw [mem_edgeRows, List.mem_flatMap]
    constructor
    · rintro ⟨incoming, hincoming, hedge⟩
      obtain ⟨record, nativeId, hash, hmem, hchanged, -, rfl⟩ := mem_recordsToUpsert.1 hincoming
      exact ⟨record.dataId, record.data,
        mem_changedDocuments.2 ⟨record, nativeId, hmem, hchanged, rfl, rfl⟩, hedge⟩
    · rintro ⟨dataId, data, hdocument, hedge⟩
      obtain ⟨record, nativeId, hmem, hchanged, rfl, rfl⟩ := mem_changedDocuments.1 hdocument
      obtain ⟨hash, hhash⟩ := rowHash_of_changed (not_not.1 hrefused) hmem hchanged
      exact ⟨_, mem_recordsToUpsert.2 ⟨record, nativeId, hash, hmem, hchanged, hhash, rfl⟩, hedge⟩
  refine Program.wpOk_bind.2 (pays_unlessEmpty ⟨rfl, rfl⟩ ?_ fun hnone => ?_)
  · exact Program.wpOk_bind.2 (pays_unlessEmpty trivial (pays_writeDocumentGraph howed)
      fun _ => pays_writeDocumentGraph howed)
  · rw [hnone] at howed
    exact Program.wpOk_bind.2 (pays_unlessEmpty trivial (pays_writeDocumentGraph howed)
      fun _ => pays_writeDocumentGraph howed)

theorem pays_program (write : ArtistWrite) :
    Pays rt (write.program rt) (fun d _ => d.owed = []) ⟨false, []⟩ := by
  cases write with
  | persistRecord now dataId data =>
    exact Program.wpOk_seq (pays_persistRecord rfl) fun d _ hd => hd
  | processBatch now messages =>
    refine Program.wpOk_seq (Q := fun d _ => d.owed = []) ?_ fun d _ hd => Program.wpOk_pure.2 hd
    refine Program.wpOk_await_bind.2 ⟨trivial, fun existing => ?_⟩
    dsimp only
    split
    · trivial
    · split
      · trivial
      · refine Program.wpOk_seq pays_refreshUnchanged fun d _ hd => ?_
        exact Program.wpOk_seq (pays_writeChanged hd) fun d _ hd => hd

/-- Once a write has upserted, it inserts nothing but what it owes. -/
theorem never_inserts {p : Transaction α} {Q : Debt → α → Prop} {edge : EdgeRow .memberOf}
    (h : Pays rt p Q d) (hupserted : d.upserted = true) (hpaid : edge ∉ d.owed) :
    Program.Issues (fun op => ¬Inserts edge op) p := by
  induction p generalizing d with
  | done a => trivial
  | raise e => trivial
  | @call ρ op k ih =>
    obtain ⟨hallows, hrest⟩ := h
    have hnext : ∀ reply, (d.next rt op reply).upserted = true ∧
        edge ∉ (d.next rt op reply).owed := by
      intro reply
      cases op with
      | upsertRecord t now incoming => simp [Allows, hupserted] at hallows
      | upsertRecords t now rows => simp [Allows, hupserted] at hallows
      | insertEdges r rows =>
        by_cases hr : r = .memberOf
        · subst hr
          refine ⟨hupserted, fun hedge => hpaid ?_⟩
          exact List.mem_of_mem_filter hedge
        · cases r <;> first | exact absurd rfl hr | exact ⟨hupserted, hpaid⟩
      | _ => exact ⟨hupserted, hpaid⟩
    refine ⟨?_, fun reply => ih _ (hrest _) (hnext reply).1 (hnext reply).2⟩
    cases op with
    | insertEdges r rows =>
      by_cases hr : r = .memberOf
      · subst hr
        exact fun hedge => hpaid (hallows edge hedge)
      · cases r <;> first | exact absurd rfl hr | exact id
    | _ => exact id

end Debt

/-! ## How far the sweep is -/

/-- Where the sweep stands with `member_of`. -/
inductive Scan where
  | counting
  | reading (lastId : String) (asserted : List (EdgeRow .memberOf))
  | inserting (asserted : List (EdgeRow .memberOf))
  | deleting (asserted : List (EdgeRow .memberOf))
  | over

namespace Scan

/-- The document lies after the cursor. -/
def Unread : Scan → String → Prop
  | .counting, dataId => "" < dataId
  | .reading lastId _, dataId => lastId < dataId
  | _, _ => False

/-- The rows the sweep has still to insert. -/
def pending : Scan → List (EdgeRow .memberOf)
  | .reading _ asserted => asserted
  | .inserting asserted => asserted
  | _ => []

/-- The artists a statement of the sweep reads. -/
def artistsRead (snapshot : Store) : {ρ : Type} → Statement ρ → List (String × Json)
  | _, .documentPage .memberOf lastId limit =>
    (Statement.documentPage .memberOf lastId limit).read snapshot
  | _, _ => []

/-- The temporary table holds the row. -/
def Holds : Scan → EdgeRow .memberOf → Prop
  | .counting, _ => False
  | .reading _ asserted, edge => edge ∈ asserted
  | .inserting asserted, edge => edge ∈ asserted
  | .deleting asserted, edge => edge ∈ asserted
  | .over, _ => True

variable (rt : Runtime)

def next : Scan → {ρ : Type} → Statement ρ → ρ → Scan
  | .counting, _, .countRows _, total => if total = 0 then .over else .reading "" []
  | .reading _ asserted, _, .documentPage .memberOf _ _, page =>
    let rows : List (EdgeRow .memberOf) := assertedRows rt .memberOf page
    match page.getLast? with
    | none => .inserting asserted
    | some (dataId, _) =>
      if page.length < documentPageSize then .inserting (asserted ++ rows)
      else .reading dataId (asserted ++ rows)
  | .inserting asserted, _, .insertAsserted .memberOf _, _ => .deleting asserted
  | .deleting _, _, .deleteUnasserted .memberOf _, _ => .over
  | scan, _, _, _ => scan

def Allows : Scan → {ρ : Type} → Statement ρ → Prop
  | .counting, _, .countRows t => t = .artists
  | .reading lastId _, _, .documentPage a last limit =>
      a = .memberOf ∧ last = lastId ∧ limit = documentPageSize
  | .inserting asserted, _, .insertAsserted .memberOf rows => rows = asserted
  | .deleting asserted, _, .deleteUnasserted .memberOf rows => rows = asserted
  | .over, _, .countRows _ => True
  | .over, _, .documentPage _ _ _ => True
  | .over, _, .insertAsserted a _ => a = .sameAs
  | .over, _, .deleteUnasserted a _ => a = .sameAs
  | _, _, _ => False

/-- The program goes on from there. -/
abbrev Keeps {α : Type} (p : Transaction α) (Q : Scan → α → Prop) (scan : Scan) : Prop :=
  p.wpOk Allows (next rt) Q scan

variable {rt}

theorem keeps_assertedPages {fuel : Nat} {lastId : String} {asserted : List (EdgeRow .memberOf)} :
    Keeps rt (assertedPages rt .memberOf fuel lastId asserted)
      (fun scan rows => scan = .inserting rows) (.reading lastId asserted) := by
  induction fuel generalizing lastId asserted with
  | zero => trivial
  | succ fuel ih =>
    refine Program.wpOk_await_bind.2 ⟨⟨rfl, rfl, rfl⟩, fun page => ?_⟩
    simp only [next]
    cases hlast : page.getLast? with
    | none => exact Program.wpOk_pure.2 rfl
    | some entry =>
      simp only
      split
      · exact Program.wpOk_pure.2 rfl
      · exact ih

theorem keeps_members {fuel : Nat} :
    Keeps rt (reconcileRelation rt fuel .memberOf) (fun scan _ => scan = .over) .counting := by
  refine Program.wpOk_await_bind.2 ⟨rfl, fun total => ?_⟩
  simp only [next]
  split
  · exact Program.wpOk_pure.2 rfl
  · refine Program.wpOk_seq keeps_assertedPages fun scan asserted hscan => ?_
    subst hscan
    exact Program.wpOk_await_bind.2 ⟨rfl, fun _ => Program.wpOk_await.2 ⟨rfl, fun _ => rfl⟩⟩

/-- `same_as` comes after `member_of` is over. -/
theorem keeps_persons {fuel : Nat} :
    Keeps rt (reconcileRelation rt fuel .sameAs) (fun scan _ => scan = .over) .over := by
  have hpages : ∀ {fuel lastId asserted}, Keeps rt (assertedPages rt .sameAs fuel lastId asserted)
      (fun scan _ => scan = .over) .over := by
    intro fuel
    induction fuel with
    | zero => exact fun {_ _} => trivial
    | succ fuel ih =>
      intro lastId asserted
      rw [assertedPages]
      refine Program.wpOk_await_bind.2 ⟨trivial, fun page => ?_⟩
      split
      · exact Program.wpOk_pure.2 rfl
      · split
        · exact Program.wpOk_pure.2 rfl
        · exact ih
  refine Program.wpOk_await_bind.2 ⟨trivial, fun total => ?_⟩
  split
  · exact Program.wpOk_pure.2 rfl
  · refine Program.wpOk_seq hpages fun scan asserted hscan => ?_
    subst hscan
    exact Program.wpOk_await_bind.2 ⟨rfl, fun _ => Program.wpOk_await.2 ⟨rfl, fun _ => rfl⟩⟩

theorem keeps_program (fuel : Nat) :
    Keeps rt (reconcileAdditiveEdges rt fuel) (fun scan _ => scan = .over) .counting := by
  refine Program.wpOk_seq keeps_members fun scan _ hscan => ?_
  subst hscan
  exact keeps_persons

section

variable {snapshot st : Store} {dead : Finset Slot} {ρ : Type} {op : Statement ρ}
variable {scan : Scan} {dataId : String} {row : EntityRow} {edge : EdgeRow .memberOf}

/-- A row of an unread document of the statement's snapshot is read, or stays unread. -/
theorem unread_next (hallows : scan.Allows op) (hunread : scan.Unread dataId)
    (hrow : (snapshot.entities .artists).lookup dataId = some row)
    (hedge : edge ∈ asserts rt .memberOf dataId row.data) :
    edge ∈ (scan.next rt op (op.read snapshot)).pending ∨
      (scan.next rt op (op.read snapshot)).Unread dataId := by
  cases scan with
  | counting =>
    cases op with
    | countRows t =>
      obtain rfl : t = .artists := hallows
      have htotal : (snapshot.entities .artists).rows.length ≠ 0 := by
        have hmem := (Table.mem_rows _ dataId row).2 hrow
        exact Nat.ne_of_gt (List.length_pos_of_mem hmem)
      right
      simp only [next, Statement.read, htotal, if_false]
      exact hunread
    | _ => exact hallows.elim
  | reading lastId asserted =>
    cases op with
    | documentPage a last limit =>
      obtain ⟨rfl, rfl, rfl⟩ := hallows
      have hread : (Statement.documentPage .memberOf last documentPageSize).read snapshot =
        documentsOf ((snapshot.entities .artists).page
          (fun row => AdditiveRelation.memberOf.selects row.data) last documentPageSize) := rfl
      have hafter : (dataId, row) ∈ (snapshot.entities .artists).after
          (fun row => AdditiveRelation.memberOf.selects row.data) last :=
        Table.mem_after.2 ⟨hrow, selects_of_asserts hedge, hunread⟩
      rw [hread]
      generalize hpage : (snapshot.entities .artists).page
        (fun row => AdditiveRelation.memberOf.selects row.data) last documentPageSize = page
      have hpositive : 0 < documentPageSize := by decide
      rcases Table.mem_page_or_after hpositive hafter with hmem | ⟨hfull, entry, hentry, hbeyond⟩
      · rw [hpage] at hmem
        have hasserted : edge ∈ assertedRows rt .memberOf (documentsOf page) :=
          mem_assertedRows.2 ⟨dataId, row.data, mem_documentsOf.2 ⟨row, hmem, rfl⟩, hedge⟩
        left
        simp only [next, getLast?_documentsOf]
        cases hsome : page.getLast? with
        | none =>
          rw [List.getLast?_eq_none_iff.1 hsome] at hmem
          cases hmem
        | some entry =>
          simp only [Option.map_some]
          split
          · exact List.mem_append_right _ hasserted
          · exact List.mem_append_right _ hasserted
      · rw [hpage] at hfull hentry
        right
        simp only [next, getLast?_documentsOf, length_documentsOf, hentry, Option.map_some]
        rw [if_neg (by omega)]
        exact hbeyond
    | _ => exact hallows.elim
  | _ => exact hunread.elim

/-- What is still to be inserted stays so until the insert. -/
theorem pending_next {reply : ρ} (hallows : scan.Allows op) (hpending : edge ∈ scan.pending) :
    edge ∈ (scan.next rt op reply).pending ∨ edge ∈ ((op.change snapshot dead).apply st).edges .memberOf := by
  cases scan with
  | reading lastId asserted =>
    cases op with
    | documentPage a last limit =>
      obtain ⟨rfl, rfl, rfl⟩ := hallows
      left
      simp only [next]
      cases reply.getLast? with
      | none => exact hpending
      | some entry =>
        simp only
        split
        · exact List.mem_append_left _ hpending
        · exact List.mem_append_left _ hpending
    | _ => exact hallows.elim
  | inserting asserted =>
    cases op with
    | insertAsserted a rows =>
      cases a with
      | memberOf =>
        obtain rfl : rows = asserted := hallows
        right
        simp only [Statement.change, Change.apply, AdditiveRelation.relation, Function.update_self]
        exact mem_insertAll_additive.2 (.inr (mem_unique.2 hpending))
      | sameAs => exact hallows.elim
    | _ => exact hallows.elim
  | _ => cases hpending

/-- The temporary table only grows until the delete. -/
theorem holds_next {reply : ρ} (hallows : scan.Allows op) (hholds : scan.Holds edge) :
    (scan.next rt op reply).Holds edge := by
  cases scan with
  | counting => exact hholds.elim
  | reading lastId asserted =>
    cases op with
    | documentPage a last limit =>
      obtain ⟨rfl, rfl, rfl⟩ := hallows
      simp only [next]
      cases reply.getLast? with
      | none => exact hholds
      | some entry =>
        simp only
        split
        · exact List.mem_append_left _ hholds
        · exact List.mem_append_left _ hholds
    | _ => exact hallows.elim
  | inserting asserted =>
    cases op with
    | insertAsserted a rows =>
      cases a with
      | memberOf => exact hholds
      | sameAs => exact hallows.elim
    | _ => exact hallows.elim
  | deleting asserted =>
    cases op with
    | deleteUnasserted a rows =>
      cases a with
      | memberOf => trivial
      | sameAs => exact hallows.elim
    | _ => exact hallows.elim
  | _ => trivial

/-- A page adds what its artists assert. -/
theorem holds_read {data : Json} (hallows : scan.Allows op)
    (hread : (dataId, data) ∈ artistsRead snapshot op) (hedge : edge ∈ asserts rt .memberOf dataId data) :
    (scan.next rt op (op.read snapshot)).Holds edge := by
  cases op with
  | documentPage a last limit =>
    cases a with
    | memberOf =>
      cases scan with
      | reading lastId asserted =>
        simp only [artistsRead] at hread
        have hasserted : edge ∈ assertedRows rt .memberOf
            ((Statement.documentPage .memberOf last limit).read snapshot) :=
          mem_assertedRows.2 ⟨dataId, data, hread, hedge⟩
        generalize (Statement.documentPage .memberOf last limit).read snapshot = page at hread hasserted ⊢
        simp only [next]
        cases hlast : page.getLast? with
        | none =>
          rw [List.getLast?_eq_none_iff.1 hlast] at hread
          cases hread
        | some entry =>
          simp only
          split
          · exact List.mem_append_right _ hasserted
          · exact List.mem_append_right _ hasserted
      | counting => exact hallows.elim
      | inserting rows => exact hallows.elim
      | deleting rows => exact hallows.elim
      | _ => trivial
    | sameAs => cases hread
  | _ => cases hread

/-- The sweep leaves the documents alone. -/
theorem entity_not_written (hallows : scan.Allows op) (t : DataType) (dataId : String) :
    .entity t dataId ∉ (op.change snapshot dead).writes st := by
  cases op with
  | countRows t => exact Finset.notMem_empty _
  | documentPage a last limit => exact Finset.notMem_empty _
  | insertAsserted a rows => simp [Statement.change, Change.writes]
  | deleteUnasserted a rows => simp [Statement.change, Change.writes]
  | _ => cases scan <;> exact hallows.elim

end

end Scan

/-! ## What a statement does to the rows -/

section

variable {rt : Runtime} {d : Debt} {snapshot st : Store} {dead : Finset Slot} {ρ : Type}
variable {op : Statement ρ} {edge : EdgeRow .memberOf}

/-- The statement may delete the row. -/
def Deletes (edge : EdgeRow .memberOf) (snapshot : Store) : {ρ : Type} → Statement ρ → Prop
  | _, .deleteScoped r _ => r = .memberOf
  | _, .purgeEdges r _ _ => r = .memberOf
  | _, .deleteUnasserted .memberOf asserted => edge ∈ snapshot.edges .memberOf ∧ edge ∉ asserted
  | _, _ => False

theorem mem_apply_of_not_deletes (hspared : ¬Deletes edge snapshot op)
    (hedge : edge ∈ st.edges .memberOf) :
    edge ∈ ((op.change snapshot dead).apply st).edges .memberOf := by
  have hinsert : ∀ {r : EdgeRelation} {rows : List (EdgeRow r)},
      edge ∈ ((Change.edges r rows).apply st).edges .memberOf := by
    intro r rows
    by_cases hr : r = .memberOf
    · subst hr
      simp only [Change.apply, Function.update_self]
      exact mem_insertAll_of_mem hedge
    · simpa [Change.apply, Function.update_of_ne (Ne.symm hr)] using hedge
  have hprune : ∀ {r : EdgeRelation} {p : EdgeRow r → Bool}, r ≠ .memberOf →
      edge ∈ ((Change.prune r p).apply st).edges .memberOf := by
    intro r p hr
    simpa [Change.apply, Function.update_of_ne (Ne.symm hr)] using hedge
  cases op with
  | insertEdges r rows => exact hinsert
  | insertAsserted a rows => exact hinsert
  | deleteScoped r ids => exact hprune hspared
  | purgeEdges r t startedAt => exact hprune hspared
  | deleteUnasserted a asserted =>
    cases a with
    | memberOf =>
      simp only [Statement.change, Change.apply, AdditiveRelation.relation, Function.update_self]
      refine Finset.mem_filter.2 ⟨hedge, ?_⟩
      simp only [Statement.doomed, decide_eq_false_iff_not, decide_eq_true_eq]
      exact fun hdoomed => hspared ⟨hdoomed.1, hdoomed.2.2⟩
    | sameAs => exact hprune (by decide)
  | _ => exact hedge

theorem Debt.not_deletes (hallows : d.Allows op) : ¬Deletes edge snapshot op := by
  cases op with
  | deleteScoped r ids => exact hallows
  | purgeEdges r t startedAt => exact hallows.elim
  | deleteUnasserted a asserted => exact hallows.elim
  | _ => exact id

theorem mem_apply_of_inserts (hinserts : Inserts edge op) :
    edge ∈ ((op.change snapshot dead).apply st).edges .memberOf := by
  cases op with
  | insertEdges r rows =>
    by_cases hr : r = .memberOf
    · subst hr
      simp only [Statement.change, Change.apply, Function.update_self]
      exact (mem_insertAll_additive (a := .memberOf)).2 (.inr hinserts)
    · cases r <;> first | exact absurd rfl hr | exact hinserts.elim
  | _ => exact hinserts.elim

theorem waits_of_inserts (hinserts : Inserts edge op) :
    (op.change snapshot dead).waits (.edge .memberOf edge) = true := by
  cases op with
  | insertEdges r rows =>
    by_cases hr : r = .memberOf
    · subst hr
      exact decide_eq_true ⟨rfl, List.mem_map_of_mem hinserts⟩
    · cases r <;> first | exact absurd rfl hr | exact hinserts.elim
  | _ => exact hinserts.elim

/-- The statement stores payloads. -/
def Upserts : {ρ : Type} → Statement ρ → Prop
  | _, .upsertRecord _ _ _ => True
  | _, .upsertRecords _ _ _ => True
  | _, _ => False

/-- Between its upsert and its end a write only pays. -/
theorem Debt.next_of_not_upserts {reply : ρ} (hother : ¬Upserts op) :
    (d.next rt op reply).upserted = d.upserted ∧
      ∀ edge ∈ d.owed, edge ∈ (d.next rt op reply).owed ∨ Inserts edge op := by
  cases op with
  | upsertRecord t now incoming => exact absurd trivial hother
  | upsertRecords t now rows => exact absurd trivial hother
  | insertEdges r rows =>
    by_cases hr : r = .memberOf
    · subst hr
      refine ⟨rfl, fun edge hedge => ?_⟩
      by_cases hpaid : edge ∈ rows
      · exact .inr hpaid
      · exact .inl (List.mem_filter.2 ⟨hedge, by simpa using hpaid⟩)
    · cases r <;> first | exact absurd rfl hr | exact ⟨rfl, fun _ hedge => .inl hedge⟩
  | _ => exact ⟨rfl, fun _ hedge => .inl hedge⟩

/-- Other statements of a write leave every payload as it is. -/
theorem Debt.payload_kept (hallows : d.Allows op) (hother : ¬Upserts op) {t : DataType}
    {dataId : String} {row' : EntityRow}
    (hrow' : (((op.change snapshot dead).apply st).entities t).lookup dataId = some row') :
    ∃ row, (st.entities t).lookup dataId = some row ∧ row.data = row'.data := by
  have hupdate : ∀ {t' : DataType} {ids : List String} {f : String → EntityRow → EntityRow},
      (∀ dataId row, (f dataId row).data = row.data) →
      (((Change.entities t' ids fun dataId row => row.map (f dataId)).apply st).entities t).lookup
        dataId = some row' →
      ∃ row, (st.entities t).lookup dataId = some row ∧ row.data = row'.data := by
    intro t' ids f hdata hlookup
    rw [lookup_entities_apply] at hlookup
    split at hlookup
    · obtain ⟨row, hrow, rfl⟩ := Option.map_eq_some_iff.1 hlookup
      exact ⟨row, hrow, (hdata dataId row).symm⟩
    · exact ⟨row', hlookup, rfl⟩
  cases op with
  | upsertRecord t' now incoming => exact absurd trivial hother
  | upsertRecords t' now rows => exact absurd trivial hother
  | refresh t' now ids =>
    exact hupdate (f := fun _ row => { row with updatedAt := now }) (fun _ _ => rfl) hrow'
  | backfillMedia t' now rows =>
    exact hupdate (f := fun dataId row => { row with media := rows.lookup dataId, updatedAt := now })
      (fun _ _ => rfl) hrow'
  | backfillIdentity t' now rows =>
    exact hupdate (f := fun dataId row => { row with
      gmItemId := rows.lookup dataId, updatedAt := now }) (fun _ _ => rfl) hrow'
  | purgeRows t' startedAt => exact hallows.elim
  | _ => exact ⟨row', hrow', rfl⟩

end

end Tableinator
