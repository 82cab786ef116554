import Tableinator.Store.Serial

/-! # Concurrent deliveries of one document

Two `persist_record` transactions on the same id, under READ COMMITTED.  Each decides
whether to rewrite the graph by the `prior` row of its statement's snapshot, and
whether to rewrite the entity row by the row its `ON CONFLICT` meets.  Where the two
agree the document stays coherent; a delivery that commits in between can make them
differ. -/

namespace Tableinator

open Effect Relational Tableinator.Graph

variable {rt : Runtime} {t : DataType} {dataId : String} {ι : Type} [DecidableEq ι]

/-- In every run of deliveries of one document whose upserts all meet the gate of their
    snapshot, the committed rows that name the document are the rows its stored payload
    derives. -/
theorem concurrent_records_are_coherent {committed : Store} (hcoherent : Coherent rt t dataId committed)
    (now : ι → Time) (data : ι → Document) {σ : System ι Slot Store Statement WriteError Outcome}
    (hrun : (System.start committed fun i => persistRecord rt (now i) t dataId (data i)).Run engine
      (System.Answers engine GateAgrees) σ) :
    (∀ row, (σ.committed.entities t).lookup dataId = some row →
      ∀ r ∈ (deriveStored rt t dataId row.data).replaced, ∀ edge : EdgeRow r,
        (edge ∈ σ.committed.edges r ∧ edge.Names dataId ↔
          edge ∈ (deriveStored rt t dataId row.data).edges r)) ∧
    ((σ.committed.entities t).lookup dataId = none →
      ∀ r ∈ purgeScope t, ∀ edge ∈ σ.committed.edges r, ¬edge.Names dataId) := by
  have hfinal : Coherent rt t dataId σ.committed :=
    Guarded.committed_inv (G := documentGuard rt t dataId) hcoherent
      (fun i => persistRecord_verifies t dataId) hrun
  refine ⟨fun row hrow r hr => hfinal.rows hrow hr, fun hnone r hr edge hedge hnames => ?_⟩
  exact hfinal.absent hnone r hr edge hnames hedge

/-! ## A delivery in between -/

/-- An artist with one alias. -/
def artistDocument (hash aliasId : String) : Document :=
  [("id", .str "1"), ("sha256", .str hash),
    ("aliases", .arr [.obj [("id", .str aliasId), ("name", .str "alias")]])]

/-- The store that holds one delivery of the artist. -/
def artistStore : Store :=
  runOperations concreteRuntime 1 [(.persistRecord 1 .artists "1" (artistDocument "h0" "10"), true)]

theorem coherent_artistStore : Coherent concreteRuntime .artists "1" artistStore :=
  runOperations_inv coherent_empty Operation.run_coherent _

/-- `false` redelivers the stored payload, `true` delivers a new one. -/
def artistDeliveries : System Bool Slot Store Statement WriteError Outcome :=
  System.start artistStore fun i =>
    persistRecord concreteRuntime 2 .artists "1"
      (if i then artistDocument "h1" "11" else artistDocument "h0" "10")

/-- The upsert meets the hash its snapshot showed. -/
def gateUnmoved (σ : System Bool Slot Store Statement WriteError Outcome) : Action Bool → Bool
  | .finish i =>
    match (σ.sessions i).running, (σ.sessions i).program with
    | some run, .call (.upsertRecord t _ incoming) _ =>
      ((run.snapshot.entities t).lookup incoming.dataId).map (·.hash) =
        (((σ.view engine i).entities t).lookup incoming.dataId).map (·.hash)
    | _, _ => true
  | _ => true

theorem answers_of_gateUnmoved {σ : System Bool Slot Store Statement WriteError Outcome}
    {action : Action Bool} (h : gateUnmoved σ action = true) :
    σ.Answers engine GateAgrees action := by
  cases action with
  | finish i =>
    intro ρ op k run hrunning hcall
    cases op with
    | upsertRecord t now incoming =>
      simp only [gateUnmoved, hrunning, hcall, decide_eq_true_eq] at h
      simp only [GateAgrees, StoresHash, h]
      exact ⟨id, fun hnot hstores => absurd hstores hnot⟩
    | _ => trivial
  | _ => trivial

/-- Both deliveries have their snapshots when the redelivery is written, and the new payload
    is written over it. -/
def artistTurns : List (Action Bool) :=
  [.begin true, .begin false, .finish false, .commit false, .finish true, .begin true, .finish true,
    .begin true, .finish true, .commit true]

theorem concurrent_records_are_coherent_turns :
    ∃ σ, artistDeliveries.Run engine (System.Answers engine GateAgrees) σ ∧
      (∀ i, (σ.sessions i).status = .committed) ∧
      ∀ row, (σ.committed.entities .artists).lookup "1" = some row →
        ∀ r ∈ (deriveStored concreteRuntime .artists "1" row.data).replaced, ∀ edge : EdgeRow r,
          (edge ∈ σ.committed.edges r ∧ edge.Names "1" ↔
            edge ∈ (deriveStored concreteRuntime .artists "1" row.data).edges r) := by
  have hrun : (artistDeliveries.performAll engine gateUnmoved artistTurns).any (fun σ =>
      (σ.sessions true).status = .committed ∧ (σ.sessions false).status = .committed) = true := by
    decide +kernel
  obtain ⟨σ, hσ, hend⟩ := (Option.any_eq_true _ _).1 hrun
  simp only [Bool.decide_and, Bool.and_eq_true, decide_eq_true_eq] at hend
  have hadmitted := System.run_of_performAll answers_of_gateUnmoved hσ
  refine ⟨σ, hadmitted, fun i => ?_,
    (concurrent_records_are_coherent coherent_artistStore (fun _ => 2) _ hadmitted).1⟩
  cases i with
  | true => exact hend.1
  | false => exact hend.2

/-- The redelivery has taken its snapshot when the new payload is written and committed. -/
def artistSchedule : List (Action Bool) :=
  [.begin false, .begin true, .finish true, .begin true, .finish true, .begin true, .finish true,
    .commit true, .finish false, .commit false]

/-- The redelivery writes the old payload back over the new one and, its snapshot having shown
    the payload as stored, leaves the new one's edges in place. -/
theorem concurrent_records_diverge :
    Coherent concreteRuntime .artists "1" artistStore ∧
    ∃ σ, artistDeliveries.Run engine (fun _ _ => True) σ ∧
      (∀ i, (σ.sessions i).status = .committed) ∧
      ∃ row, (σ.committed.entities .artists).lookup "1" = some row ∧
        .aliasOf ∈ (deriveStored concreteRuntime .artists "1" row.data).replaced ∧
        ∃ edge ∈ (deriveStored concreteRuntime .artists "1" row.data).edges .aliasOf,
          edge ∉ σ.committed.edges .aliasOf := by
  have hrun : (artistDeliveries.performAll engine (fun _ _ => true) artistSchedule).any (fun σ =>
      (σ.sessions true).status = .committed ∧ (σ.sessions false).status = .committed ∧
      ((σ.committed.entities .artists).lookup "1").any fun row =>
        .aliasOf ∈ (deriveStored concreteRuntime .artists "1" row.data).replaced ∧
        ((deriveStored concreteRuntime .artists "1" row.data).edges .aliasOf).any fun edge =>
          edge ∉ σ.committed.edges .aliasOf) = true := by
    decide +kernel
  obtain ⟨σ, hσ, hend⟩ := (Option.any_eq_true _ _).1 hrun
  simp only [Bool.decide_and, Bool.and_eq_true, decide_eq_true_eq, Option.any_eq_true,
    List.any_eq_true] at hend
  obtain ⟨htrue, hfalse, row, hrow, hreplaced, edge, hderived, hmissing⟩ := hend
  refine ⟨coherent_artistStore, σ, System.run_of_performAll (fun _ => trivial) hσ, fun i => ?_,
    row, hrow, hreplaced, edge, hderived, hmissing⟩
  cases i with
  | true => exact htrue
  | false => exact hfalse

end Tableinator
