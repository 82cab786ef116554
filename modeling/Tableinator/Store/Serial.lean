import Tableinator.Store.Purge

/-! # Transactions one after another

A run of the loader without concurrency: batches, single records and purges, each
committed or rolled back before the next begins. -/

namespace Tableinator

open Effect Relational Tableinator.Graph

/-- One transaction of the loader. -/
inductive Operation where
  | processBatch (now : Time) (t : DataType) (messages : List BatchRecord)
  | persistRecord (now : Time) (t : DataType) (dataId : String) (data : Document)
  | purgeStaleRows (t : DataType) (startedAt : Option Time) (recordCount : Option Nat)

section

variable (rt : Runtime) (cap : Rat)

/-- The store after the transaction, or the exception that rolled it back. -/
def Operation.run (st : Store) : Operation → Except WriteError Store
  | .processBatch now t messages =>
    ((Tableinator.processBatch rt now t messages).serial engine.alone st).map Prod.snd
  | .persistRecord now t dataId data =>
    ((Tableinator.persistRecord rt now t dataId data).serial engine.alone st).map Prod.snd
  | .purgeStaleRows t startedAt recordCount =>
    ((Tableinator.purgeStaleRows cap t startedAt recordCount).serial engine.alone st).map Prod.snd

/-- The store once the transaction is over: `commits` is false where an outage rolls it back. -/
def Operation.settle (st : Store) (op : Operation) (commits : Bool) : Store :=
  match op.run rt cap st with
  | .ok st' => if commits then st' else st
  | .error _ => st

def runOperations (steps : List (Operation × Bool)) : Store :=
  steps.foldl (fun st step => step.1.settle rt cap st step.2) Store.empty

end

variable {rt : Runtime} {cap : Rat} {t t' : DataType} {dataId : String} {st st' : Store}

theorem serial_of_map {α : Type} {program : Transaction α}
    (h : (program.serial engine.alone st).map Prod.snd = .ok st') :
    ∃ a, program.serial engine.alone st = .ok (a, st') := by
  cases hserial : program.serial engine.alone st with
  | error e => simp [hserial, Except.map] at h
  | ok result =>
    obtain ⟨a, st''⟩ := result
    simp only [hserial, Except.map, Except.ok.injEq] at h
    exact ⟨a, by rw [h]⟩

/-! ## Documents stay coherent -/

theorem coherent_empty : Coherent rt t dataId Store.empty where
  stored row hrow := by simp [Store.empty] at hrow
  absent _ r _ edge _ hedge := by simp [Store.empty] at hedge

/-- The purge of one type spares the documents of the others. -/
theorem spares_purgeStaleRows (hother : t' ≠ t) (startedAt : Option Time)
    (recordCount : Option Nat) :
    Program.Issues (fun op => ∀ snapshot dead, (op.change snapshot dead).Spares rt t dataId)
      (purgeStaleRows cap t' startedAt recordCount) := by
  refine issues_purgeStaleRows (fun _ _ => spares_keep) (fun _ _ _ => spares_keep)
    (fun r hr _ _ _ => spares_prune fun hscope => ?_) fun _ _ _ => spares_entities fun ht => ?_
  · exact absurd (purgeScope_disjoint hr hscope) hother
  · exact absurd ht.symm hother

theorem purgeStaleRows_coherent {startedAt : Option Time} {recordCount : Option Nat}
    {result : PUnit} (h : Coherent rt t dataId st)
    (hserial : (purgeStaleRows cap t' startedAt recordCount).serial engine.alone st =
      .ok (result, st')) : Coherent rt t dataId st' := by
  have hfree : ∀ slot ∈ (∅ : Finset Slot), ¬Concerns t dataId slot :=
    fun slot hslot => absurd hslot (Finset.notMem_empty _)
  by_cases ht : t' = t
  · subst ht
    cases startedAt with
    | none =>
      cases hserial
      exact h
    | some startedAt =>
      obtain ⟨held, ⟨hrefreshed, _⟩ | hkept⟩ := serial_of_wlp
        (I := aroundPurge rt t' dataId startedAt False) engine
        (fun _ st => .inl (Guarded.Agree.refl st))
        (fun _ st => .inl ⟨Guarded.Agree.refl st, hfree⟩) (fun _ _ => trivial)
        (purgeStaleRows_ensures (.inr ⟨h, hfree⟩)) hserial
      · exact hrefreshed.elim
      · exact hkept.coherent
  · exact Program.serial_of_issues (fun op st hspares hst => (hspares st ∅).coherent hst)
      (spares_purgeStaleRows ht startedAt recordCount) h hserial

theorem Operation.run_coherent {op : Operation} (h : Coherent rt t dataId st)
    (hrun : op.run rt cap st = .ok st') : Coherent rt t dataId st' := by
  cases op with
  | processBatch now t' messages =>
    obtain ⟨result, hserial⟩ := serial_of_map hrun
    exact Guarded.serial_inv (processBatch_verifies t' messages) gateAgrees_self h hserial
  | persistRecord now t' dataId' data =>
    obtain ⟨result, hserial⟩ := serial_of_map hrun
    exact Guarded.serial_inv (persistRecord_verifies t' dataId') gateAgrees_self h hserial
  | purgeStaleRows t' startedAt recordCount =>
    obtain ⟨result, hserial⟩ := serial_of_map hrun
    exact purgeStaleRows_coherent h hserial

/-! ## Rows of this loader only -/

/-- Every row of a document-scoped relation names a document of this loader. -/
def Rooted (st : Store) : Prop :=
  ∀ r, documentScope r ≠ none → ∀ edge ∈ st.edges r, ∃ dataId, edge.Names dataId

theorem rooted_empty : Rooted Store.empty := by
  intro r _ edge hedge
  simp [Store.empty] at hedge

theorem rooted_apply {change : Change} (hrows : ∀ {r rows}, change = .edges r rows →
      documentScope r ≠ none → ∀ edge ∈ rows, ∃ dataId, edge.Names dataId) (h : Rooted st) :
    Rooted (change.apply st) := by
  intro r hr edge hedge
  rcases Change.mem_edges_apply hedge with hold | ⟨rows, heq, hrow⟩
  · exact h r hr edge hold
  · exact hrows heq hr edge hrow

theorem rooted_writeDocumentGraph (t : DataType) (documents : List (String × Document)) :
    Program.Issues (fun op => ∀ st snapshot dead, Rooted st → Rooted ((op.change snapshot dead).apply st))
      (writeDocumentGraph rt t documents) := by
  refine issues_writeDocumentGraph (fun v st _ _ => rooted_apply fun heq => ?_)
    (fun r st _ _ => rooted_apply fun heq => ?_) fun r st _ _ => rooted_apply fun heq hscope edge hedge => ?_
  · cases heq
  · cases heq
  · cases heq
    obtain ⟨dataId, data, _, hderived⟩ := mem_edgeRows.1 hedge
    exact ⟨dataId, names_of_derived hscope hderived⟩

theorem Operation.run_rooted {op : Operation} (h : Rooted st) (hrun : op.run rt cap st = .ok st') :
    Rooted st' := by
  have hspared : ∀ {change : Change} {st : Store}, (∀ {r rows}, change ≠ .edges r rows) → Rooted st →
      Rooted (change.apply st) := fun hne => rooted_apply fun heq => absurd heq hne
  have hstep : ∀ {ρ : Type} (op : Statement ρ) (st : Store), (∀ st snapshot dead, Rooted st →
      Rooted ((op.change snapshot dead).apply st)) → Rooted st → Rooted (engine.alone op st).2 :=
    fun op st hop hst => hop st st ∅ hst
  cases op with
  | processBatch now t messages =>
    obtain ⟨result, hserial⟩ := serial_of_map hrun
    refine Program.serial_of_issues hstep (issues_processBatch ?_ (fun existing => ?_)
      fun existing targets => ?_) h hserial
    · exact fun _ _ _ => id
    · exact issues_refreshUnchanged (fun _ _ _ _ => hspared fun heq => by cases heq)
        (fun _ _ _ _ => hspared fun heq => by cases heq) fun _ _ _ _ => hspared fun heq => by cases heq
    · exact issues_writeChanged (fun _ _ _ => hspared fun heq => by cases heq)
        (fun _ _ _ => hspared fun heq => by cases heq) (rooted_writeDocumentGraph t _)
  | persistRecord now t dataId data =>
    obtain ⟨result, hserial⟩ := serial_of_map hrun
    exact Program.serial_of_issues hstep (issues_persistRecord
      (fun _ _ _ _ _ _ => hspared fun heq => by cases heq) (fun _ _ _ _ => hspared fun heq => by cases heq)
      (rooted_writeDocumentGraph t _)) h hserial
  | purgeStaleRows t startedAt recordCount =>
    obtain ⟨result, hserial⟩ := serial_of_map hrun
    exact Program.serial_of_issues hstep (issues_purgeStaleRows (fun _ _ _ => id)
      (fun _ _ _ _ => id) (fun _ _ _ _ _ _ => hspared fun heq => by cases heq)
      fun _ _ _ _ => hspared fun heq => by cases heq) h hserial

/-! ## Whole runs -/

theorem settle_inv {I : Store → Prop} {op : Operation} {commits : Bool}
    (hrun : ∀ {st'}, op.run rt cap st = .ok st' → I st') (h : I st) :
    I (op.settle rt cap st commits) := by
  unfold Operation.settle
  cases hresult : op.run rt cap st with
  | error e => exact h
  | ok st' =>
    cases commits with
    | true => exact hrun hresult
    | false => exact h

theorem runOperations_inv {I : Store → Prop} (hempty : I Store.empty)
    (hrun : ∀ {op : Operation} {st st'}, I st → op.run rt cap st = .ok st' → I st')
    (steps : List (Operation × Bool)) : I (runOperations rt cap steps) := by
  have hloop : ∀ (steps : List (Operation × Bool)) (st : Store), I st →
      I (steps.foldl (fun st step => step.1.settle rt cap st step.2) st) := by
    intro steps
    induction steps with
    | nil => exact fun _ h => h
    | cons step steps ih => exact fun st h => ih _ (settle_inv (hrun h) h)
  exact hloop steps Store.empty hempty

/-- After any run of committed and rolled-back transactions, the rows that name a stored
    document, in the relations its payload replaces, are the rows its payload derives; and no
    row of a document-scoped relation carries the id of a document that is not stored. -/
theorem serial_runs_are_coherent (steps : List (Operation × Bool)) (t : DataType) (dataId : String) :
    (∀ row, ((runOperations rt cap steps).entities t).lookup dataId = some row →
      ∀ r ∈ (deriveStored rt t dataId row.data).replaced, ∀ edge : EdgeRow r,
        (edge ∈ (runOperations rt cap steps).edges r ∧ edge.Names dataId ↔
          edge ∈ (deriveStored rt t dataId row.data).edges r)) ∧
    (((runOperations rt cap steps).entities t).lookup dataId = none →
      ∀ r ∈ purgeScope t, ∀ column sourceScoped, documentScope r = some (column, sourceScoped) →
        ∀ edge ∈ (runOperations rt cap steps).edges r, edge.cell column ≠ some (.text dataId)) := by
  have hcoherent : Coherent rt t dataId (runOperations rt cap steps) :=
    runOperations_inv coherent_empty Operation.run_coherent steps
  have hrooted : Rooted (runOperations rt cap steps) :=
    runOperations_inv rooted_empty Operation.run_rooted steps
  refine ⟨fun row hrow r hr => hcoherent.rows hrow hr, fun hnone r hr column sourceScoped hscope edge hedge hcell => ?_⟩
  obtain ⟨other, hother⟩ := hrooted r (scoped_of_mem_purgeScope hr) edge hedge
  have hsame : other = dataId := by
    have hnames := hother
    simp only [EdgeRow.Names, hscope, hcell] at hnames
    simpa using hnames.1.symm
  subst hsame
  exact hcoherent.absent hnone r hr edge hother hedge

end Tableinator
