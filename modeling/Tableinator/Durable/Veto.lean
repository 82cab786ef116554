import Tableinator.Durable.Decision
import Tableinator.Durable.ModeSwitch

/-! # The purge veto

A dead-lettered record of the dump never refreshed its row, so the stale-row purge of
its type must not run for that extraction.  The process flag and the dead letters that
say so can be gone when the signal is redelivered; the veto on the latch cannot, since
no statement of either mode takes it back. -/

namespace Tableinator.Durable

open Relational Effect Effect.Program

variable {now : Time} {grant : Option Token} {db db' : RefreshDb} {v : String} {t : DataType}

/-! ## Vetoes stay -/

/-- No veto is taken back. -/
def VetoKept (db db' : RefreshDb) : Prop :=
  ∀ v t, purgeWasVetoed v t db = true → purgeWasVetoed v t db' = true

theorem purgeWasVetoed_iff :
    purgeWasVetoed v t db = true ↔ ∃ row, db.latch.lookup v = some row ∧ t ∈ row.purgeVetoed := by
  unfold purgeWasVetoed
  cases db.latch.lookup v with
  | none => simp
  | some row => simp

theorem VetoKept.refl (db : RefreshDb) : VetoKept db db := fun _ _ h => h

theorem VetoKept.trans {db'' : RefreshDb} (h : VetoKept db db') (h' : VetoKept db' db'') :
    VetoKept db db'' := fun v t hveto => h' v t (h v t hveto)

theorem VetoKept.insert {version : String} {new : LatchRow}
    (h : ∀ row, db.latch.lookup version = some row → row.purgeVetoed ⊆ new.purgeVetoed) :
    VetoKept db { db with latch := db.latch.insert version new } := by
  intro v t hveto
  obtain ⟨row, hrow, hmem⟩ := purgeWasVetoed_iff.1 hveto
  by_cases hv : v = version
  · subst hv
    exact purgeWasVetoed_iff.2 ⟨new, Table.lookup_insert_self _ _ _, h row hrow hmem⟩
  · exact purgeWasVetoed_iff.2 ⟨row, (Table.lookup_insert_of_ne _ _ hv).trans hrow, hmem⟩

theorem VetoKept.update {f : String → LatchRow → LatchRow}
    (h : ∀ v row, (f v row).purgeVetoed = row.purgeVetoed) :
    VetoKept db { db with latch := db.latch.update f } := by
  intro v t hveto
  obtain ⟨row, hrow, hmem⟩ := purgeWasVetoed_iff.1 hveto
  refine purgeWasVetoed_iff.2 ⟨f v row, ?_, ?_⟩
  · simp [hrow]
  · rw [h]
    exact hmem

theorem signalledRow_vetoes (now : Time) (generation : Option Nat) (dataType : DataType)
    {prior : Option LatchRow} {row : LatchRow} (h : prior = some row) :
    row.purgeVetoed ⊆ (signalledRow now generation dataType prior).purgeVetoed := by
  subst h
  exact subset_rfl

theorem vetoKept_signal (now : Time) (version : String) (generation : Option Nat)
    (dataType : DataType) (db : RefreshDb) :
    VetoKept db (upsertSignal now version generation dataType db).2 :=
  .insert fun _ hrow => signalledRow_vetoes now generation dataType hrow

theorem vetoKept_veto (now : Time) (version : String) (dataType : DataType) (db : RefreshDb) :
    VetoKept db (recordPurgeVeto now version dataType db) := by
  refine .insert ?_
  intro row hrow
  rw [hrow]
  exact Finset.subset_insert _ _

theorem Write.vetoKept (h : Write now grant db db') : VetoKept db db' := by
  cases h with
  | assign _ _ =>
    refine .update ?_
    intro v row
    split
    · rfl
    · rfl
  | signal _ _ _ _ _ => exact vetoKept_signal _ _ _ _ _
  | veto version dataType => exact vetoKept_veto now version dataType db
  | openCursor _ => exact fun _ _ hveto => hveto
  | advance _ _ _ => exact fun _ _ hveto => hveto
  | schedule _ _ _ _ _ _ => exact fun _ _ hveto => hveto
  | supersede _ _ _ => exact fun _ _ hveto => hveto
  | retry _ _ _ _ => exact fun _ _ hveto => hveto
  | lease _ _ _ _ _ _ => exact fun _ _ hveto => hveto
  | renew _ _ _ => exact fun _ _ hveto => hveto

theorem Writes.vetoKept (h : Writes now grant db db') : VetoKept db db' := by
  induction h with
  | refl => exact .refl db
  | tail _ hwrite ih => exact ih.trans hwrite.vetoKept

theorem Completion.vetoKept {job : ClaimedJob} (h : Completion now job db db') :
    VetoKept db db' := by
  cases h with
  | @mk latch row _ hlatch _ _ _ _ _ _ =>
    have hinsert : ∀ new : LatchRow, new.purgeVetoed = latch.purgeVetoed →
        VetoKept db { db with latch := db.latch.insert job.version new } := by
      intro new hsame
      refine .insert ?_
      intro old hold
      rw [hlatch] at hold
      cases hold
      rw [hsame]
    exact hinsert _ rfl

/-- A committed veto is on the latch. -/
theorem purgeWasVetoed_recordPurgeVeto (now : Time) (version : String) (dataType : DataType)
    (db : RefreshDb) :
    purgeWasVetoed version dataType (recordPurgeVeto now version dataType db) = true := by
  refine purgeWasVetoed_iff.2 ⟨_, Table.lookup_insert_self _ _ _, ?_⟩
  cases db.latch.lookup version with
  | none => exact Finset.mem_singleton_self _
  | some row => exact Finset.mem_insert_self _ _

/-! ## Runs -/

namespace Deployment

variable {R : Type} {s s' : Deployment R}

/-- Every process found the latch relation it probed for at its start, and has its pool: that
    is dropped only behind the last handler. -/
def LatchDeclared (_ : Deployment R) : ServiceEvent R → Prop
  | .answer _ answer =>
    answer.reply .connectionPool = .ok true ∧ answer.reply .latchDeclared = .ok true
  | _ => True

theorem Performs.vetoKept {answer : Answer} {ρ : Type} {op : ServiceCall ρ}
    (h : Performs now answer t db op db') : VetoKept db db' := by
  cases h with
  | durable hwrites _ => exact hwrites.vetoKept
  | signal version => exact vetoKept_signal _ _ _ _ _
  | stamp version _ =>
    refine .update ?_
    intro v row
    split
    · rfl
    · rfl

theorem step_vetoKept {event : ServiceEvent R} (hsound : s.Sound)
    (hstep : s.step event = some s') : VetoKept s.cluster.db s'.cluster.db := by
  cases event with
  | protocol action =>
    obtain ⟨cluster, hcluster, rfl⟩ := Option.map_eq_some_iff.1 hstep
    rcases Cluster.step_tables hsound.claims hcluster with ⟨grant, hwrites⟩ | ⟨job, hcompletion⟩
    · exact hwrites.vetoKept
    · exact hcompletion.vetoKept
  | deliver mode d =>
    cases hstep
    exact .refl _
  | answer index answer =>
    obtain ⟨handling, hmem, hanswer⟩ := Option.bind_eq_some_iff.1 hstep
    obtain ⟨_, _, _, hperforms, _⟩ := answerStep_performs hsound hmem hanswer
    exact hperforms.vetoKept
  | cancel index =>
    cases hstep
    exact .refl _
  | restart =>
    cases hstep
    exact .refl _

/-! ### What the replies say -/

theorem perform_declares (now : Time) {ρ : Type} (op : ServiceCall ρ) (d : Delivery)
    {answer : Answer} (db : RefreshDb)
    (h : answer.reply .connectionPool = .ok true ∧ answer.reply .latchDeclared = .ok true) :
    ServiceCall.declares op (ServiceCall.perform now d answer db op).1 = true := by
  match ρ, op with
  | _, .inr _ => rfl
  | _, .inl op =>
    cases op with
    | connectionPool => simp [ServiceCall.perform, Call.perform, h, ServiceCall.declares]
    | latchDeclared => simp [ServiceCall.perform, Call.perform, h, ServiceCall.declares]
    | _ => rfl

/-- A veto its handler believes committed is committed. -/
theorem perform_persists (now : Time) {ρ : Type} (op : ServiceCall ρ) (d : Delivery)
    (answer : Answer) (db : RefreshDb) (hkey : extractionLatchKey d = some v) {st : Decision}
    (hallow : st.allows d op)
    (h : ServiceCall.persists op (ServiceCall.perform now d answer db op).1 = true) :
    purgeWasVetoed v d.dataType (ServiceCall.perform now d answer db op).2 = true := by
  match ρ, op with
  | _, .inr _ => cases h
  | _, .inl op =>
    cases op with
    | recordPurgeVeto version =>
      have hsame : extractionLatchKey d = some version := hallow
      rw [hkey] at hsame
      cases hsame
      simp only [ServiceCall.perform, Call.perform] at h ⊢
      split at h
      · next heffect =>
        rw [if_pos heffect]
        exact purgeWasVetoed_recordPurgeVeto now v d.dataType db
      · cases h
    | _ => cases h

/-- A latch that reads clear carries no veto. -/
theorem perform_clears (now : Time) {ρ : Type} (op : ServiceCall ρ) (d : Delivery)
    (answer : Answer) (db : RefreshDb) (hkey : extractionLatchKey d = some v) {st : Decision}
    (hallow : st.allows d op)
    (h : ServiceCall.clears op (ServiceCall.perform now d answer db op).1 = true) :
    purgeWasVetoed v d.dataType db = false := by
  match ρ, op with
  | _, .inr _ => cases h
  | _, .inl op =>
    cases op with
    | purgeWasVetoed version =>
      have hsame : extractionLatchKey d = some version := hallow
      rw [hkey] at hsame
      cases hsame
      simp only [ServiceCall.perform] at h
      split at h
      · unfold Answer.hear at h
        split at h
        · simpa [ServiceCall.clears] using h
        · cases h
      · cases h
    | _ => cases h

/-! ### Invariants -/

/-- Every handling of a named extraction stands at some point of its decision, and the
    vetoes that were persisted are on the latch. -/
structure Accountable (s : Deployment R) : Prop where
  handlings : ∀ h ∈ s.handlings, ∀ v, extractionLatchKey h.delivery = some v →
    ∃ st : Decision, Decides h.delivery h.program (fun _ _ => True) st ∧ st.declared = true ∧
      st.vetoed = h.vetoed ∧
      (st.persisted = true → purgeWasVetoed v h.delivery.dataType s.cluster.db = true)
  acks : ∀ d, (d, true) ∈ s.acks → ∀ v, extractionLatchKey d = some v →
    purgeWasVetoed v d.dataType s.cluster.db = true

/-- Handlings are numbered in the order of their deliveries. -/
structure Numbered (s : Deployment R) : Prop where
  handlings : ∀ h ∈ s.handlings, h.id < s.delivered
  purges : ∀ id d, (id, d) ∈ s.purges → id < s.delivered

/-- With the veto of `(v, t)` committed, no handling that starts now finds a clear latch. -/
structure Barred (v : String) (t : DataType) (since : Nat) (s : Deployment R) : Prop where
  vetoed : purgeWasVetoed v t s.cluster.db = true
  delivered : since ≤ s.delivered
  handlings : ∀ h ∈ s.handlings, since ≤ h.id → extractionLatchKey h.delivery = some v →
    h.delivery.dataType = t →
    ∃ st : Decision, Decides h.delivery h.program (fun _ _ => True) st ∧ st.declared = true ∧
      st.cleared = false
  purges : ∀ id d, (id, d) ∈ s.purges → extractionLatchKey d = some v → d.dataType = t → id < since

theorem Starts.accountable (h : s.Starts) : s.Accountable where
  handlings := by
    intro handling hmem
    rw [h.handlings] at hmem
    cases hmem
  acks := by
    intro d hmem
    rw [h.acks] at hmem
    cases hmem

theorem Starts.numbered (h : s.Starts) : s.Numbered where
  handlings := by
    intro handling hmem
    rw [h.handlings] at hmem
    cases hmem
  purges := by
    intro id d hmem
    rw [h.purges] at hmem
    cases hmem

theorem Numbered.barred (h : s.Numbered) (hveto : purgeWasVetoed v t s.cluster.db = true) :
    Barred v t s.delivered s where
  vetoed := hveto
  delivered := le_rfl
  handlings := by
    intro handling hmem hsince
    exact absurd (h.handlings handling hmem) hsince.not_gt
  purges := fun id d hmem _ _ => h.purges id d hmem

theorem Accountable.of_vetoKept (h : s.Accountable) (hkept : VetoKept s.cluster.db s'.cluster.db)
    (hhandlings : ∀ handling ∈ s'.handlings, handling ∈ s.handlings) (hacks : s'.acks = s.acks) :
    s'.Accountable where
  handlings := by
    intro handling hmem v hkey
    obtain ⟨st, hdecides, hdeclared, hvetoed, hpersisted⟩ :=
      h.handlings handling (hhandlings handling hmem) v hkey
    exact ⟨st, hdecides, hdeclared, hvetoed, fun hp => hkept _ _ (hpersisted hp)⟩
  acks := by
    intro d hmem v hkey
    rw [hacks] at hmem
    exact hkept _ _ (h.acks d hmem v hkey)

theorem answerStep_accountable {index : Nat} {answer : ServiceAnswer R} {h : Handling}
    (hsound : s.Sound) (haccountable : s.Accountable)
    (hok : LatchDeclared s (.answer index answer)) (hmem : s.handlings[index]? = some h)
    (hstep : s.answerStep index answer h = some s') : s'.Accountable := by
  obtain ⟨_, _, _, hperforms, _⟩ := answerStep_performs hsound hmem hstep
  have hkept := hperforms.vetoKept
  obtain ⟨id, d, vetoed, program⟩ := h
  have hhandling := haccountable.handlings _ (List.mem_of_getElem? hmem)
  cases program with
  | done _ => cases hstep
  | raise _ => cases hstep
  | @call ρ op k =>
    simp only [answerStep, Option.some.injEq] at hstep
    subst hstep
    -- one handling moved on, and it may be the one that acks
    constructor
    · intro handling hmem' v hkey
      rcases List.mem_or_eq_of_mem_set hmem' with hold | rfl
      · obtain ⟨st, hdecides, hdeclared, hvetoed, hpersisted⟩ :=
          haccountable.handlings handling hold v hkey
        exact ⟨st, hdecides, hdeclared, hvetoed, fun hp => hkept _ _ (hpersisted hp)⟩
      · obtain ⟨st, ⟨hallow, hrest⟩, hdeclared, hvetoed, hpersisted⟩ := hhandling v hkey
        refine ⟨_, hrest _, ?_, ?_, ?_⟩
        · simp only [Decision.next, hdeclared, Bool.true_and]
          exact perform_declares _ op d _ hok
        · simp only [Decision.next, hvetoed]
        · intro hp
          rcases Bool.or_eq_true_iff.1 hp with hbefore | hnow
          · exact hkept _ _ (hpersisted hbefore)
          · exact perform_persists _ op d _ _ hkey hallow hnow
    · intro d' hmem' v hkey
      dsimp only at hmem'
      split at hmem'
      · next hack =>
        rcases List.mem_cons.1 hmem' with heq | hold
        · -- The ack of a vetoed handling: its veto was persisted first.
          cases heq
          obtain ⟨st, ⟨hallow, _⟩, hdeclared, hvetoed, hpersisted⟩ := hhandling v hkey
          cases op with
          | inr _ => cases hack
          | inl op =>
            cases op with
            | ack => exact hkept _ _ (hpersisted (hallow hdeclared hvetoed))
            | _ => cases hack
        · exact hkept _ _ (haccountable.acks d' hold v hkey)
      · exact hkept _ _ (haccountable.acks d' hmem' v hkey)

theorem answerStep_numbered {index : Nat} {answer : ServiceAnswer R} {h : Handling}
    (hnumbered : s.Numbered) (hmem : s.handlings[index]? = some h)
    (hstep : s.answerStep index answer h = some s') : s'.Numbered := by
  obtain ⟨id, d, vetoed, program⟩ := h
  have hid := hnumbered.handlings _ (List.mem_of_getElem? hmem)
  cases program with
  | done _ => cases hstep
  | raise _ => cases hstep
  | call op k =>
    simp only [answerStep, Option.some.injEq] at hstep
    subst hstep
    constructor
    · intro handling hmem'
      rcases List.mem_or_eq_of_mem_set hmem' with hold | rfl
      · exact hnumbered.handlings handling hold
      · exact hid
    · intro id' d' hmem'
      dsimp only at hmem'
      split at hmem'
      · rcases List.mem_cons.1 hmem' with heq | hold
        · cases heq
          exact hid
        · exact hnumbered.purges id' d' hold
      · exact hnumbered.purges id' d' hmem'

theorem answerStep_barred {index since : Nat} {answer : ServiceAnswer R} {h : Handling}
    (hsound : s.Sound) (hbarred : Barred v t since s)
    (hok : LatchDeclared s (.answer index answer)) (hmem : s.handlings[index]? = some h)
    (hstep : s.answerStep index answer h = some s') : Barred v t since s' := by
  obtain ⟨_, _, _, hperforms, _⟩ := answerStep_performs hsound hmem hstep
  have hkept := hperforms.vetoKept
  obtain ⟨id, d, vetoed, program⟩ := h
  have hhandling := hbarred.handlings _ (List.mem_of_getElem? hmem)
  cases program with
  | done _ => cases hstep
  | raise _ => cases hstep
  | @call ρ op k =>
    simp only [answerStep, Option.some.injEq] at hstep
    subst hstep
    refine ⟨hkept _ _ hbarred.vetoed, hbarred.delivered, ?_, ?_⟩
    · intro handling hmem' hsince hkey htype
      rcases List.mem_or_eq_of_mem_set hmem' with hold | rfl
      · exact hbarred.handlings handling hold hsince hkey htype
      · obtain ⟨st, ⟨hallow, hrest⟩, hdeclared, hopen⟩ := hhandling hsince hkey htype
        refine ⟨_, hrest _, ?_, ?_⟩
        · simp only [Decision.next, hdeclared, Bool.true_and]
          exact perform_declares _ op d _ hok
        · -- A clear reading would contradict the committed veto.
          simp only [Decision.next, hopen, Bool.false_or]
          rw [Bool.eq_false_iff]
          intro hclear
          have hread := perform_clears _ op d _ _ hkey hallow hclear
          have hveto := hbarred.vetoed
          have htype : d.dataType = t := htype
          rw [← htype, hread] at hveto
          cases hveto
    · intro id' d' hmem' hkey htype
      dsimp only at hmem'
      split at hmem'
      · next hpurge =>
        rcases List.mem_cons.1 hmem' with heq | hold
        · cases heq
          by_contra hsince
          obtain ⟨st, ⟨hallow, _⟩, hdeclared, hopen⟩ := hhandling (not_lt.1 hsince) hkey htype
          -- only a purge is recorded, and the gate allows none that was not read as clear
          cases op with
          | inr _ => cases hpurge
          | inl op =>
            cases op with
            | purgeStaleRows startedAt recordCount =>
              have hclear := hallow hdeclared
              rw [hopen] at hclear
              cases hclear
            | _ => cases hpurge
        · exact hbarred.purges id' d' hold hkey htype
      · exact hbarred.purges id' d' hmem' hkey htype

theorem step_accountable {event : ServiceEvent R} (hsound : s.Sound) (h : s.Accountable)
    (hok : LatchDeclared s event) (hstep : s.step event = some s') : s'.Accountable := by
  have hkept := step_vetoKept hsound hstep
  cases event with
  | protocol action =>
    obtain ⟨cluster, hcluster, rfl⟩ := Option.map_eq_some_iff.1 hstep
    exact h.of_vetoKept hkept (fun _ hmem => hmem) rfl
  | deliver mode d =>
    cases hstep
    refine ⟨?_, h.acks⟩
    intro handling hmem v hkey
    rcases List.mem_cons.1 hmem with rfl | hold
    · exact ⟨.start, process_decides hkey mode, rfl, rfl, fun hp => by cases hp⟩
    · exact h.handlings handling hold v hkey
  | answer index answer =>
    obtain ⟨handling, hmem, hanswer⟩ := Option.bind_eq_some_iff.1 hstep
    exact answerStep_accountable hsound h hok hmem hanswer
  | cancel index =>
    cases hstep
    exact h.of_vetoKept hkept (fun _ hmem => List.mem_of_mem_eraseIdx hmem) rfl
  | restart =>
    cases hstep
    exact h.of_vetoKept hkept (fun _ hmem => by cases hmem) rfl

theorem step_numbered {event : ServiceEvent R} (h : s.Numbered)
    (hstep : s.step event = some s') : s'.Numbered := by
  cases event with
  | protocol action =>
    obtain ⟨cluster, _, rfl⟩ := Option.map_eq_some_iff.1 hstep
    exact ⟨h.handlings, h.purges⟩
  | deliver mode d =>
    cases hstep
    refine ⟨?_, fun id d hmem => Nat.lt_succ_of_lt (h.purges id d hmem)⟩
    intro handling hmem
    rcases List.mem_cons.1 hmem with rfl | hold
    · exact Nat.lt_succ_self _
    · exact Nat.lt_succ_of_lt (h.handlings handling hold)
  | answer index answer =>
    obtain ⟨handling, hmem, hanswer⟩ := Option.bind_eq_some_iff.1 hstep
    exact answerStep_numbered h hmem hanswer
  | cancel index =>
    cases hstep
    exact ⟨fun handling hmem => h.handlings handling (List.mem_of_mem_eraseIdx hmem), h.purges⟩
  | restart =>
    cases hstep
    exact ⟨fun handling hmem => (by cases hmem), h.purges⟩

theorem step_barred {event : ServiceEvent R} {since : Nat} (hsound : s.Sound)
    (h : Barred v t since s) (hok : LatchDeclared s event) (hstep : s.step event = some s') :
    Barred v t since s' := by
  have hkept := step_vetoKept hsound hstep
  cases event with
  | protocol action =>
    obtain ⟨cluster, _, rfl⟩ := Option.map_eq_some_iff.1 hstep
    exact ⟨hkept _ _ h.vetoed, h.delivered, h.handlings, h.purges⟩
  | deliver mode d =>
    cases hstep
    refine ⟨h.vetoed, Nat.le_succ_of_le h.delivered, ?_, h.purges⟩
    intro handling hmem hsince hkey htype
    rcases List.mem_cons.1 hmem with rfl | hold
    · exact ⟨.start, process_decides hkey mode, rfl, rfl⟩
    · exact h.handlings handling hold hsince hkey htype
  | answer index answer =>
    obtain ⟨handling, hmem, hanswer⟩ := Option.bind_eq_some_iff.1 hstep
    exact answerStep_barred hsound h hok hmem hanswer
  | cancel index =>
    cases hstep
    exact ⟨h.vetoed, h.delivered,
      fun handling hmem => h.handlings handling (List.mem_of_mem_eraseIdx hmem), h.purges⟩
  | restart =>
    cases hstep
    exact ⟨h.vetoed, h.delivered, fun handling hmem => (by cases hmem), h.purges⟩

theorem run_accountable (hstart : s.Starts) (hrun : Run LatchDeclared s s') :
    s'.Sound ∧ s'.Accountable ∧ s'.Numbered := by
  induction hrun with
  | refl => exact ⟨hstart.sound, hstart.accountable, hstart.numbered⟩
  | tail _ hstep ih =>
    obtain ⟨event, hok, hevent⟩ := hstep
    exact ⟨step_sound ih.1 hevent, step_accountable ih.1 ih.2.1 hok hevent,
      step_numbered ih.2.2 hevent⟩

theorem run_barred {since : Nat} (hsound : s.Sound) (h : Barred v t since s)
    (hrun : Run LatchDeclared s s') : Barred v t since s' := by
  induction hrun with
  | refl => exact h
  | tail hprefix hstep ih =>
    obtain ⟨event, hok, hevent⟩ := hstep
    exact step_barred (run_sound hsound hprefix) ih hok hevent

/-- A recorded veto is permanent: no handling that starts after it purges its type, and
    every acked delivery whose handling found a reason has its veto on the latch. -/
theorem recorded_veto_is_permanent {l : Deployment R} (hstart : s.Starts)
    (hrun : Run LatchDeclared s l) (hrun' : Run LatchDeclared l s') :
    (∀ v t, purgeWasVetoed v t l.cluster.db = true → ∀ id d, (id, d) ∈ s'.purges →
      extractionLatchKey d = some v → d.dataType = t → id < l.delivered) ∧
      ∀ d, (d, true) ∈ s'.acks → ∀ v, extractionLatchKey d = some v →
        purgeWasVetoed v d.dataType s'.cluster.db = true := by
  obtain ⟨hsound, _, hnumbered⟩ := run_accountable hstart hrun
  constructor
  · intro v t hveto
    exact (run_barred hsound (hnumbered.barred hveto) hrun').purges
  · exact (run_accountable hstart (hrun.trans hrun')).2.1.acks

/-- Three dead letters are waiting, and everything else goes well. -/
def deadLetters : Answer :=
  ⟨true, true, fun op => match op with
    | .deadLettersWaiting => .ok (some 3)
    | op => Loader.smoothReply op⟩

/-- The artists signal is vetoed by its dead letters, and redelivered after an operator
    cleared them. -/
def vetoedDelivery : List (ServiceEvent Nat) :=
  .deliver .durable ⟨.artists, "20240101", "2024-01-02", none⟩ ::
    List.replicate 14 (.answer 0 ⟨deadLetters, 0⟩)

theorem latchDeclared_replicate {n : Nat} {mode : RefreshMode} {d : Delivery} {answer : Answer}
    (h : answer.reply .connectionPool = .ok true ∧ answer.reply .latchDeclared = .ok true) :
    ∀ event ∈ ServiceEvent.deliver mode d :: List.replicate n (.answer 0 ⟨answer, 0⟩),
      ∀ s : Deployment Nat, LatchDeclared s event := by
  intro event hmem s
  rcases List.mem_cons.1 hmem with rfl | hmem
  · trivial
  · rw [List.eq_of_mem_replicate hmem]
    exact h

theorem recorded_veto_is_permanent_redelivery :
    ∃ l s' : Deployment Nat, Run LatchDeclared (boot .empty 0) l ∧ Run LatchDeclared l s' ∧
      purgeWasVetoed "20240101" .artists l.cluster.db = true ∧ l.delivered = 1 ∧
      s'.acks.map Prod.snd = [true, true] ∧
      ∀ id d, (id, d) ∈ s'.purges → extractionLatchKey d = some "20240101" →
        d.dataType = .artists → id < 1 := by
  have hfirst : ((boot .empty 0).runEvents vetoedDelivery).map (fun s : Deployment Nat =>
      (purgeWasVetoed "20240101" .artists s.cluster.db, s.delivered)) = some (true, 1) := by
    decide +kernel
  have hboth : ((boot .empty 0).runEvents (vetoedDelivery ++ handle .durable .artists 17)).map
      (fun s : Deployment Nat => s.acks.map Prod.snd) = some [true, true] := by
    decide +kernel
  obtain ⟨l, hl, hread⟩ := Option.map_eq_some_iff.1 hfirst
  obtain ⟨hveto, hdelivered⟩ := Prod.mk.inj hread
  rw [runEvents_append, hl, Option.bind_some] at hboth
  obtain ⟨s', hs', hacks⟩ := Option.map_eq_some_iff.1 hboth
  have hrun : Run LatchDeclared (boot .empty 0) l :=
    run_of_runEvents (latchDeclared_replicate ⟨rfl, rfl⟩) hl
  have hrun' : Run LatchDeclared l s' := run_of_runEvents (latchDeclared_replicate ⟨rfl, rfl⟩) hs'
  refine ⟨l, s', hrun, hrun', hveto, hdelivered, hacks, ?_⟩
  have hpermanent := (recorded_veto_is_permanent boot_starts hrun hrun').1 _ _ hveto
  rw [hdelivered] at hpermanent
  exact hpermanent

end Deployment

end Tableinator.Durable
