import Tableinator.Durable.Protocol

/-! # Fencing

A pass commits only while it holds the cursor's generation and version and the
current, unexpired lease of its job.  A claim that loses either never gets it back
(`step_holds`), so what a stale worker does after that is never published. -/

namespace Tableinator.Durable

open Relational

variable {R : Type} {required : Finset DataType}

namespace Cluster

variable {s s' : Cluster R}

/-- The fences of `_before_commit` would let `job` through. -/
def holds (s : Cluster R) (job : ClaimedJob) : Bool :=
  s.db.isCurrent job && ownsLease s.now job s.db

/-! ## Claims along a run -/

theorem claimStep_published (s : Cluster R) (owner : String) (token : Token)
    (locked : String → Bool) :
    (s.claimStep owner token locked).relations = s.relations ∧
      (s.claimStep owner token locked).commits = s.commits := by
  unfold claimStep
  split
  split
  · exact ⟨rfl, rfl⟩
  · exact ⟨rfl, rfl⟩

theorem claimStep_writes (s : Cluster R) (owner : String) (token : Token)
    (locked : String → Bool) :
    Writes s.now (some token) s.db (s.claimStep owner token locked).db := by
  have hwrites := claimDueJob_writes s.now owner token locked s.db
  unfold claimStep
  split
  next job db hclaim =>
  rw [hclaim] at hwrites
  split
  · exact hwrites
  · exact hwrites

theorem claimStep_issued (s : Cluster R) (owner : String) (token : Token)
    (locked : String → Bool) : (s.claimStep owner token locked).issued = token :: s.issued := by
  unfold claimStep
  split
  split
  · rfl
  · rfl

/-- The workers after a claim: the old ones, and possibly the new claimant. -/
theorem claimStep_workers {owner : String} {token t : Token} {locked : String → Bool}
    {worker : Worker R} (h : (s.claimStep owner token locked).workers t = some worker) :
    s.workers t = some worker ∨
      (t = token ∧ claimDueJob s.now owner token locked s.db =
        (some worker.job, (s.claimStep owner token locked).db)) := by
  unfold claimStep at h ⊢
  split at h
  next job db hclaim =>
  split at h
  · exact .inl h
  · next job =>
    rw [setWorker_workers] at h
    split at h
    · next ht =>
      cases h
      exact .inr ⟨ht, hclaim⟩
    · exact .inl h

theorem claimed_of_claim {now : Time} {owner : String} {token : Token}
    {locked : String → Bool} {db db' : RefreshDb} {job : ClaimedJob} {issued : List Token}
    (hclaim : claimDueJob now owner token locked db = (some job, db'))
    (hfresh : ∀ v row, db.job.lookup v = some row → row.leaseToken ≠ some token) :
    Claimed db' (token :: issued) token job := by
  obtain ⟨row, _, hgeneration, htoken, hepoch, hcursor, hjob⟩ := claimDueJob_eq_some hclaim
  refine ⟨htoken, List.mem_cons_self, hcursor.ge, ?_, ?_⟩
  · rw [hjob]
    exact ⟨_, Table.lookup_insert_self _ _ _, hgeneration⟩
  · intro v row' hrow' hheld
    rw [hjob, Table.lookup_insert] at hrow'
    split at hrow'
    · next hv =>
      cases hrow'
      exact ⟨hv, rfl, hepoch.symm⟩
    · exact absurd hheld (hfresh v row' hrow')

/-- The tables of a step change by the writes of one transaction or by a completion. -/
theorem step_tables {a : Action R} (hclaims : s.Claims) (h : s.step required a = some s') :
    (∃ grant, Writes s.now grant s.db s'.db) ∨ ∃ job, Completion s.now job s.db s'.db := by
  cases step_kind hclaims h with
  | quiet hquiet _ _ _ => exact .inl ⟨none, hquiet.writes⟩
  | claim owner token locked _ heq =>
    subst heq
    exact .inl ⟨some token, claimStep_writes s owner token locked⟩
  | commit _ _ hcompletion _ _ _ _ _ => exact .inr ⟨_, hcompletion⟩

theorem step_claims {a : Action R} (hclaims : s.Claims) (h : s.step required a = some s') :
    s'.Claims := by
  cases step_kind hclaims h with
  | quiet hquiet hinherits hissued _ =>
    refine ⟨?_, ?_⟩
    · intro token worker' hworker'
      obtain ⟨worker, hworker, hjob⟩ := hinherits token worker' hworker'
      rw [← hjob, hissued]
      exact (hclaims.claimed token worker hworker).of_keeps hquiet.writes.keeps (by simp)
        (List.Subset.refl _)
    · intro job hjob
      rw [hquiet.commits] at hjob
      obtain ⟨hold, hnone⟩ := hclaims.spent job hjob
      rw [hissued]
      refine ⟨hold, Option.eq_none_iff_forall_ne_some.2 ?_⟩
      intro worker' hworker'
      obtain ⟨worker, hworker, _⟩ := hinherits job.token worker' hworker'
      rw [hnone] at hworker
      cases hworker
  | claim owner token locked hfresh heq =>
    subst heq
    obtain ⟨hunused, hrows⟩ := fresh_iff.1 hfresh
    have hkeeps := (claimStep_writes s owner token locked).keeps
    refine ⟨?_, ?_⟩
    · intro t worker hworker
      rw [claimStep_issued]
      rcases claimStep_workers hworker with hold | ⟨rfl, hclaim⟩
      · have hclaimed := hclaims.claimed t worker hold
        refine hclaimed.of_keeps hkeeps ?_ (List.subset_cons_self _ _)
        intro hsame
        cases hsame
        exact hunused hclaimed.issued
      · exact claimed_of_claim hclaim hrows
    · intro job hjob
      rw [(claimStep_published s owner token locked).2] at hjob
      obtain ⟨hold, hnone⟩ := hclaims.spent job hjob
      rw [claimStep_issued]
      refine ⟨List.mem_cons_of_mem _ hold, Option.eq_none_iff_forall_ne_some.2 ?_⟩
      intro worker hworker
      rcases claimStep_workers hworker with hold' | ⟨hsame, _⟩
      · rw [hnone] at hold'
        cases hold'
      · exact hunused (hsame ▸ hold)
  | @commit token worker draft hworker _ hcompletion _ _ hcommits hworkers hissued =>
    refine ⟨?_, ?_⟩
    · intro t worker' hworker'
      rw [hworkers, Function.update_apply] at hworker'
      split at hworker'
      · cases hworker'
      · rw [hissued]
        have hkeeps : Keeps s.now none s.db s'.db := hcompletion.keeps
        exact (hclaims.claimed t worker' hworker').of_keeps hkeeps (by simp) (List.Subset.refl _)
    · intro job hjob
      rw [hcommits, List.mem_append, List.mem_singleton] at hjob
      rw [hissued, hworkers, Function.update_apply]
      rcases hjob with hold | rfl
      · obtain ⟨hused, hnone⟩ := hclaims.spent job hold
        refine ⟨hused, ?_⟩
        split
        · rfl
        · exact hnone
      · have hclaimed := hclaims.claimed token worker hworker
        rw [hclaimed.token_eq, if_pos rfl]
        exact ⟨hclaimed.issued, rfl⟩

theorem run_claims (hclaims : s.Claims) (hrun : Run required s s') : s'.Claims := by
  induction hrun with
  | refl => exact hclaims
  | tail _ hstep ih =>
    obtain ⟨a, ha⟩ := hstep
    exact step_claims ih ha

/-! ## A lost claim stays lost -/

theorem any_lt_of_le {expires : Option Time} {now now' : Time} (hle : now ≤ now')
    (h : expires.any (now' < ·) = true) : expires.any (now < ·) = true := by
  cases expires with
  | none => exact h
  | some at' =>
    rw [Option.any_some, decide_eq_true_iff] at h ⊢
    exact hle.trans_lt h

/-- The fences, in the terms the frame of a transaction speaks of. -/
theorem holds_iff {job : ClaimedJob} :
    s.holds job = true ↔ s.db.generation = job.generation ∧ s.db.version = some job.version ∧
      ∃ row, s.db.job.lookup job.version = some row ∧ row.state = .leased ∧
        row.leaseToken = some job.token ∧ row.leaseEpoch = job.epoch ∧
        row.leaseExpiresAt.any (s.now < ·) = true := by
  unfold holds
  rw [Bool.and_eq_true, isCurrent_iff, ownsLease_iff, and_assoc]
  simp only [JobRow.heldBy, Bool.and_eq_true, beq_iff_eq, and_assoc]

theorem holds_of_keeps {job : ClaimedJob} {grant : Option Token} {token : Token}
    (hclaimed : Claimed s.db s.issued token job) (hkeeps : Keeps s.now grant s.db s'.db)
    (hgrant : grant ≠ some token) (hnow : s.now ≤ s'.now) (h : s'.holds job = true) :
    s.holds job = true := by
  obtain ⟨hgeneration, hversion, row', hrow', hstate', htoken', hepoch', hlive'⟩ := holds_iff.1 h
  rw [hclaimed.token_eq] at htoken'
  obtain ⟨row, hrow, htoken, hstate, hepoch, hlive⟩ :=
    hkeeps.lease _ row' token hrow' htoken' hgrant
  refine holds_iff.2 ⟨?_, ?_, row, hrow, hstate.symm.trans hstate', ?_, hepoch.symm.trans hepoch',
    hlive (any_lt_of_le hnow hlive')⟩
  · exact le_antisymm (hgeneration ▸ hkeeps.cursor.generation_le) hclaimed.reached
  · rcases hkeeps.cursor with ⟨_, hsame⟩ | ⟨hlt, _⟩
    · exact hsame.symm.trans hversion
    · -- The cursor had reached the claim's generation, so it cannot have risen to it.
      rw [hgeneration] at hlt
      exact absurd hclaimed.reached hlt.not_ge
  · rw [hclaimed.token_eq]
    exact htoken

theorem step_holds {a : Action R} {token : Token} {worker : Worker R} (hclaims : s.Claims)
    (hworker : s.workers token = some worker) (h : s.step required a = some s')
    (hholds : s'.holds worker.job = true) : s.holds worker.job = true := by
  have hclaimed := hclaims.claimed token worker hworker
  cases step_kind hclaims h with
  | quiet hquiet _ _ _ =>
    exact holds_of_keeps hclaimed hquiet.writes.keeps (by simp) hquiet.now hholds
  | claim owner fresh locked hfresh heq =>
    subst heq
    refine holds_of_keeps hclaimed (claimStep_writes s owner fresh locked).keeps ?_
      (claimStep_now s owner fresh locked).ge hholds
    intro hsame
    cases hsame
    exact (fresh_iff.1 hfresh).1 hclaimed.issued
  | commit _ _ hcompletion hnow _ _ _ _ =>
    have hkeeps : Keeps s.now none s.db s'.db := hcompletion.keeps
    exact holds_of_keeps hclaimed hkeeps (by simp) hnow.ge hholds

theorem completion_holds {job : ClaimedJob} {db' : RefreshDb}
    (h : Completion s.now job s.db db') : s.holds job = true := by
  cases h with
  | mk hcurrent _ _ _ hrow _ hheld hlive =>
    rw [holds, Bool.and_eq_true]
    exact ⟨hcurrent, ownsLease_iff.2 ⟨_, hrow, hheld, hlive⟩⟩

/-- A claim without the fences: not committed, and if its worker is alive it does not
    hold them. -/
def Lost (s : Cluster R) (token : Token) (job : ClaimedJob) : Prop :=
  job ∉ s.commits ∧ job.token = token ∧ token ∈ s.issued ∧
    ∀ worker, s.workers token = some worker → worker.job = job ∧ s.holds job = false

theorem step_lost {a : Action R} {token : Token} {job : ClaimedJob} (hclaims : s.Claims)
    (hlost : s.Lost token job) (h : s.step required a = some s') : s'.Lost token job := by
  obtain ⟨hcommitted, htoken, hissued, halive⟩ := hlost
  have hstays : ∀ worker, s.workers token = some worker → s'.holds job = false := by
    intro worker hworker
    obtain ⟨rfl, hfalse⟩ := halive worker hworker
    cases hholds : s'.holds worker.job with
    | false => rfl
    | true =>
      rw [step_holds hclaims hworker h hholds] at hfalse
      cases hfalse
  cases step_kind hclaims h with
  | quiet hquiet hinherits hsame _ =>
    refine ⟨by rwa [hquiet.commits], htoken, by rwa [hsame], ?_⟩
    intro worker' hworker'
    obtain ⟨worker, hworker, hjob⟩ := hinherits token worker' hworker'
    exact ⟨hjob.symm.trans (halive worker hworker).1, hstays worker hworker⟩
  | claim owner fresh locked hfresh heq =>
    subst heq
    refine ⟨by rwa [(claimStep_published s owner fresh locked).2], htoken, ?_, ?_⟩
    · rw [claimStep_issued]
      exact List.mem_cons_of_mem _ hissued
    · intro worker hworker
      rcases claimStep_workers hworker with hold | ⟨hsame, _⟩
      · exact ⟨(halive worker hold).1, hstays worker hold⟩
      · exact absurd (hsame ▸ hissued) (fresh_iff.1 hfresh).1
  | @commit other worker draft hworker _ hcompletion _ _ hcommits hworkers hsame =>
    refine ⟨?_, htoken, by rwa [hsame], ?_⟩
    · rw [hcommits, List.mem_append, List.mem_singleton, not_or]
      refine ⟨hcommitted, ?_⟩
      -- Committing `job` would mean that its own worker held the fences.
      rintro rfl
      have hother := (hclaims.claimed other worker hworker).token_eq
      rw [htoken] at hother
      subst hother
      have hfalse := (halive worker hworker).2
      rw [completion_holds hcompletion] at hfalse
      cases hfalse
    · intro worker' hworker'
      rw [hworkers, Function.update_apply] at hworker'
      split at hworker'
      · cases hworker'
      · exact ⟨(halive worker' hworker').1, hstays worker' hworker'⟩

theorem run_lost {token : Token} {job : ClaimedJob} (hclaims : s.Claims)
    (hlost : s.Lost token job) (hrun : Run required s s') : s'.Lost token job := by
  induction hrun with
  | refl => exact hlost
  | tail hprefix hstep ih =>
    obtain ⟨a, ha⟩ := hstep
    exact step_lost (run_claims hclaims hprefix) ih ha

/-! ## Committed passes -/

/-- The cursor stands at a committed pass or beyond it, and its latch is stamped. -/
structure Behind (db : RefreshDb) (job : ClaimedJob) : Prop where
  cursor : (db.generation = job.generation ∧ db.version = some job.version) ∨
    (job.generation < db.generation ∧ ∃ u, db.version = some u ∧ job.version < u)
  stamped : (db.refreshed job.version).isSome

theorem Behind.of_keeps {now : Time} {grant : Option Token} {db db' : RefreshDb}
    {job : ClaimedJob} (h : Behind db job) (hkeeps : Keeps now grant db db') : Behind db' job where
  cursor := by
    rcases h.cursor with ⟨hgeneration, hversion⟩ | ⟨hgeneration, hversion⟩
    · rcases hkeeps.cursor with ⟨hgeneration', hversion'⟩ | ⟨hgeneration', v, hv, hnewer⟩
      · exact .inl ⟨hgeneration'.trans hgeneration, hversion'.trans hversion⟩
      · exact .inr ⟨hgeneration ▸ hgeneration', v, hv, hnewer _ hversion⟩
    · exact .inr ⟨hgeneration.trans_le hkeeps.cursor.generation_le,
        hkeeps.cursor.version_lt hversion⟩
  stamped := by
    have hstamped := h.stamped
    unfold RefreshDb.refreshed at hstamped ⊢
    cases hrow : db.latch.lookup job.version with
    | none => simp [hrow] at hstamped
    | some row =>
      rw [hrow, Option.bind_some] at hstamped
      obtain ⟨row', hrow', _, hkept, _⟩ := hkeeps.latch _ row hrow
      rw [hrow', Option.bind_some, hkept hstamped]
      exact hstamped

/-- A completion is strictly ahead of every pass behind it. -/
theorem completion_ahead {now : Time} {job old : ClaimedJob} {db db' : RefreshDb}
    (h : Completion now job db db') (hold : Behind db old) :
    old.generation < job.generation ∧ old.version < job.version := by
  cases h with
  | mk hcurrent hlatch _ hnone _ _ _ _ =>
    obtain ⟨hgeneration, hversion⟩ := isCurrent_iff.1 hcurrent
    rcases hold.cursor with ⟨_, hsame⟩ | ⟨hlt, u, hu, hlt'⟩
    · -- The same version would have left its latch stamped.
      rw [hversion, Option.some.injEq] at hsame
      have hstamped := hold.stamped
      simp [RefreshDb.refreshed, ← hsame, hlatch, hnone] at hstamped
    · rw [hversion] at hu
      cases hu
      exact ⟨hgeneration ▸ hlt, hlt'⟩

theorem completion_behind {now : Time} {job : ClaimedJob} {db db' : RefreshDb}
    (h : Completion now job db db') : Behind db' job := by
  cases h with
  | mk hcurrent _ _ _ _ _ _ _ =>
    refine ⟨.inl (isCurrent_iff.1 hcurrent), ?_⟩
    simp [RefreshDb.refreshed]

/-- The publication history of a state. -/
structure Published (s : Cluster R) : Prop where
  ascending : s.commits.Pairwise fun a b => a.generation < b.generation ∧ a.version < b.version
  behind : ∀ job ∈ s.commits, Behind s.db job

theorem Initial.published (h : s.Initial) : s.Published := by
  refine ⟨?_, ?_⟩
  · rw [h.commits]
    exact .nil
  · intro job hjob
    rw [h.commits] at hjob
    cases hjob

theorem step_published {a : Action R} (hclaims : s.Claims) (hpublished : s.Published)
    (h : s.step required a = some s') : s'.Published := by
  cases step_kind hclaims h with
  | quiet hquiet _ _ _ =>
    refine ⟨hquiet.commits ▸ hpublished.ascending, ?_⟩
    intro job hjob
    rw [hquiet.commits] at hjob
    exact (hpublished.behind job hjob).of_keeps hquiet.writes.keeps
  | claim owner token locked _ heq =>
    subst heq
    have hcommits := (claimStep_published s owner token locked).2
    refine ⟨hcommits ▸ hpublished.ascending, ?_⟩
    intro job hjob
    rw [hcommits] at hjob
    exact (hpublished.behind job hjob).of_keeps (claimStep_writes s owner token locked).keeps
  | @commit token worker draft _ _ hcompletion _ _ hcommits _ _ =>
    have hkeeps : Keeps s.now none s.db s'.db := hcompletion.keeps
    refine ⟨?_, ?_⟩
    · rw [hcommits, List.pairwise_append]
      refine ⟨hpublished.ascending, List.pairwise_singleton _ _, ?_⟩
      intro old hold new hnew
      rw [List.mem_singleton] at hnew
      subst hnew
      exact completion_ahead hcompletion (hpublished.behind old hold)
    · intro job hjob
      rw [hcommits, List.mem_append, List.mem_singleton] at hjob
      rcases hjob with hold | rfl
      · exact (hpublished.behind job hold).of_keeps hkeeps
      · exact completion_behind hcompletion

theorem run_published (hclaims : s.Claims) (hpublished : s.Published)
    (hrun : Run required s s') : s'.Published := by
  induction hrun with
  | refl => exact hpublished
  | tail hprefix hstep ih =>
    obtain ⟨a, ha⟩ := hstep
    exact step_published (run_claims hclaims hprefix) ih ha

/-- A step publishes nothing, or it is the commit of a worker that holds the fences. -/
def Fenced (s s' : Cluster R) : Prop :=
  (s'.commits = s.commits ∧ s'.relations = s.relations ∧ Unpublished s.db s'.db) ∨
    ∃ token worker draft, s.workers token = some worker ∧ worker.phase = .finishing draft ∧
      s.holds worker.job = true ∧ s'.commits = s.commits ++ [worker.job] ∧ s'.relations = draft ∧
      ∀ v, v ≠ worker.job.version →
        s'.db.refreshed v = s.db.refreshed v ∧ s'.db.completed v = s.db.completed v

theorem completion_elsewhere {now : Time} {job : ClaimedJob} {db db' : RefreshDb}
    (h : Completion now job db db') {v : String} (hv : v ≠ job.version) :
    db'.refreshed v = db.refreshed v ∧ db'.completed v = db.completed v := by
  cases h with
  | mk _ _ _ _ _ _ _ _ =>
    unfold RefreshDb.refreshed RefreshDb.completed
    rw [Table.lookup_insert_of_ne _ _ hv, Table.lookup_insert_of_ne _ _ hv]
    exact ⟨rfl, rfl⟩

theorem step_fenced {a : Action R} (hclaims : s.Claims) (h : s.step required a = some s') :
    Fenced s s' := by
  cases step_kind hclaims h with
  | quiet hquiet _ _ _ => exact .inl ⟨hquiet.commits, hquiet.relations, hquiet.writes.unpublished⟩
  | claim owner token locked _ heq =>
    subst heq
    obtain ⟨hrelations, hcommits⟩ := claimStep_published s owner token locked
    exact .inl ⟨hcommits, hrelations, (claimStep_writes s owner token locked).unpublished⟩
  | commit hworker hphase hcompletion _ hrelations hcommits _ _ =>
    refine .inr ⟨_, _, _, hworker, hphase, completion_holds hcompletion, hcommits, hrelations, ?_⟩
    intro v hv
    exact completion_elsewhere hcompletion hv

/-- Fencing of the durable refresh, for any interleaving from tables in any state. -/
theorem committed_passes_are_fenced (hinit : s.Initial) (hrun : Run required s s') :
    (s'.commits.Pairwise fun a b => a.generation < b.generation ∧ a.version < b.version) ∧
      (s'.commits.map ClaimedJob.version).Nodup ∧
      (∀ a s'', s'.step required a = some s'' → Fenced s' s'') ∧
      ∀ token worker, s'.workers token = some worker → s'.holds worker.job = false →
        ∀ s'', Run required s' s'' → worker.job ∉ s''.commits := by
  have hclaims := run_claims hinit.claims hrun
  have hpublished := run_published hinit.claims hinit.published hrun
  refine ⟨hpublished.ascending, ?_, ?_, ?_⟩
  · rw [List.nodup_iff_pairwise_ne, List.pairwise_map]
    exact hpublished.ascending.imp fun hlt => hlt.2.ne
  · intro a s'' hstep
    exact step_fenced hclaims hstep
  · intro token worker hworker hfalse s'' hrun'
    have hclaimed := hclaims.claimed token worker hworker
    have hlost : s'.Lost token worker.job := by
      refine ⟨?_, hclaimed.token_eq, hclaimed.issued, ?_⟩
      · intro hcommitted
        have hnone := (hclaims.spent _ hcommitted).2
        rw [hclaimed.token_eq, hworker] at hnone
        cases hnone
      · intro worker' hworker'
        rw [hworker] at hworker'
        cases hworker'
        exact ⟨rfl, hfalse⟩
    exact (run_lost hclaims hlost hrun').1

/-- Four signals, one claim and its pass. -/
def onePass : List (Action Nat) :=
  [.signal "20240101" .artists, .signal "20240101" .labels, .signal "20240101" .masters,
    .signal "20240101" .releases, .claim "worker" 1 fun _ => false, .start 1, .acquire 1,
    .refresh 1 7, .finish 1, .commit 1]

theorem committed_passes_are_fenced_onePass :
    ∃ s' : Cluster Nat, Run dataTypes (boot .empty 0) s' ∧
      s'.commits = [⟨"20240101", 1, 1, 1, 1⟩] ∧ (s'.commits.map ClaimedJob.version).Nodup := by
  have heval : ((boot .empty 0).runActions dataTypes onePass).map Cluster.commits =
      some [⟨"20240101", 1, 1, 1, 1⟩] := by decide +kernel
  obtain ⟨s', hs', hcommits⟩ := Option.map_eq_some_iff.1 heval
  have hrun := run_of_runActions hs'
  exact ⟨s', hrun, hcommits, (committed_passes_are_fenced (boot_initial .empty 0) hrun).2.1⟩

end Cluster

end Tableinator.Durable
