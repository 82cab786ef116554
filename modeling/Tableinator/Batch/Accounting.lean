import Tableinator.Batch.Observer

/-! # Settlement accounting

The deque holds the deliveries accepted and not withdrawn, less as many of the oldest as
settlements were reported, as long as every withdrawal still finds its own entry.  A
withdrawal that comes after later deliveries have settled may find it gone: a settlement
took it, and the entry of the delivery that settled stays behind. -/

namespace Tableinator.Batch

/-- The count reported for a type is that of its deliveries neither settled nor
    withdrawn. -/
structure Accounts (t : DataType) (w : Watch) : Prop where
  drains : (w.ledger t).outstanding = [] → w.observer.outstandingAccepted t = 0
  counts : w.observer.outstandingAccepted t = (w.ledger t).outstanding.length

/-- Start times are pairwise distinct. -/
def Distinct (w : Watch) : Report → Prop
  | .accepted t startedAt => startedAt ∉ (w.ledger t).accepted
  | _ => True

/-- A delivery is withdrawn before more settlements were reported than deliveries were
    accepted before it and not withdrawn. -/
def Timely (w : Watch) : Report → Prop
  | .withdrawn t startedAt =>
    (w.ledger t).settlements ≤ (w.ledger t).kept.idxOf startedAt
  | _ => True

instance (w : Watch) : ∀ report, Decidable (Distinct w report)
  | .accepted _ _ => inferInstanceAs (Decidable (_ ∉ _))
  | .settled _ _ _ _ => isTrue trivial
  | .withdrawn _ _ => isTrue trivial

instance (w : Watch) : ∀ report, Decidable (Timely w report)
  | .accepted _ _ => isTrue trivial
  | .settled _ _ _ _ => isTrue trivial
  | .withdrawn _ _ => inferInstanceAs (Decidable (_ ≤ _))

/-! ## Queues that lose their oldest entries -/

section
variable {α : Type} [DecidableEq α] {l : List α} {a : α} {k : Nat}

theorem notMem_take_of_le_idxOf (h : k ≤ l.idxOf a) : a ∉ l.take k := by
  intro hmem
  have hlt := List.idxOf_lt_length_iff.2 hmem
  have heq : l.idxOf a = (l.take k).idxOf a := by
    conv_lhs => rw [← List.take_append_drop k l]
    exact List.idxOf_append_of_mem hmem
  have hlen : (l.take k).length ≤ k := List.length_take_le k l
  omega

theorem mem_take_of_idxOf_lt (hmem : a ∈ l) (h : l.idxOf a < k) : a ∈ l.take k := by
  by_contra hnot
  have heq : l.idxOf a = (l.take k).length + (l.drop k).idxOf a := by
    conv_lhs => rw [← List.take_append_drop k l]
    exact List.idxOf_append_of_notMem hnot
  have hlt := List.idxOf_lt_length_iff.2 hmem
  simp only [List.length_take] at heq
  omega

/-- An entry behind the first `k` may be erased before or after they are taken. -/
theorem drop_erase (hk : k ≤ l.length) (h : a ∉ l.take k) :
    (l.erase a).drop k = (l.drop k).erase a := by
  have hlen : (l.take k).length = k := by simp [hk]
  conv_lhs => rw [← List.take_append_drop k l, List.erase_append_right _ h]
  exact List.drop_left' hlen

theorem erase_drop_of_mem_take (hnodup : l.Nodup) (h : a ∈ l.take k) :
    (l.drop k).erase a = l.drop k := by
  refine List.erase_of_not_mem fun hmem => ?_
  rw [← List.take_append_drop k l] at hnodup
  exact (List.disjoint_of_nodup_append hnodup) h hmem

end

/-! ## The deque -/

structure Tallied (w : Watch) (t : DataType) : Prop where
  entries : w.observer.acceptedAt t = (w.ledger t).kept.drop (w.ledger t).settlements
  nodup : (w.ledger t).kept.Nodup
  known : (w.ledger t).kept ⊆ (w.ledger t).accepted
  outstanding : (w.ledger t).outstanding.Sublist (w.ledger t).kept
  tally : (w.ledger t).outstanding.length + (w.ledger t).settlements = (w.ledger t).kept.length

variable {w w' : Watch} {report : Report} {t : DataType}

theorem Tallied.start (now : Moment) : Tallied (.start now) t where
  entries := rfl
  nodup := List.nodup_nil
  known := List.Subset.refl _
  outstanding := List.Sublist.refl _
  tally := rfl

theorem Tallied.same (htallied : Tallied w t) (hsame : w.Same t w') : Tallied w' t where
  entries := by rw [hsame.acceptedAt, hsame.ledger, htallied.entries]
  nodup := by rw [hsame.ledger]; exact htallied.nodup
  known := by rw [hsame.ledger]; exact htallied.known
  outstanding := by rw [hsame.ledger]; exact htallied.outstanding
  tally := by rw [hsame.ledger]; exact htallied.tally

theorem Tallied.accounts (htallied : Tallied w t) : Accounts t w := by
  have htally := htallied.tally
  have hcounts : w.observer.outstandingAccepted t = (w.ledger t).outstanding.length := by
    rw [PostgreSQLBatchObserver.outstandingAccepted, htallied.entries, List.length_drop]
    omega
  constructor
  · intro hempty
    simp [hcounts, hempty]
  · exact hcounts

theorem Tallied.accepted {startedAt : Moment} (htallied : Tallied w t)
    (hdistinct : startedAt ∉ (w.ledger t).accepted)
    (hstep : w.step (.accepted t startedAt) = some w') : Tallied w' t := by
  have htally := htallied.tally
  cases hstep
  constructor
  · have hle : (w.ledger t).settlements ≤ (w.ledger t).kept.length := by omega
    simp [PostgreSQLBatchObserver.accepted, Ledger.accept, htallied.entries,
      List.drop_append_of_le_length hle]
  · have hfresh : startedAt ∉ (w.ledger t).kept := fun hmem => hdistinct (htallied.known hmem)
    have hdisjoint : List.Disjoint (w.ledger t).kept [startedAt] := by simpa using hfresh
    simpa [Ledger.accept] using htallied.nodup.append (List.nodup_singleton _) hdisjoint
  · simpa [Ledger.accept] using List.Subset.trans htallied.known (List.subset_append_left _ _)
  · simpa [Ledger.accept] using htallied.outstanding
  · simp only [Function.update_self, Ledger.accept, List.length_append, List.length_singleton]
    omega

theorem Tallied.settled {startedAt now : Moment} {result : DeliveryResult}
    (htallied : Tallied w t) (hstep : w.step (.settled t startedAt result now) = some w') :
    Tallied w' t := by
  have htally := htallied.tally
  simp only [Watch.step] at hstep
  split at hstep
  · rename_i hmem
    cases hstep
    constructor
    · simp [Ledger.settle, htallied.entries]
    · simpa [Ledger.settle] using htallied.nodup
    · simpa [Ledger.settle] using htallied.known
    · simpa [Ledger.settle] using List.erase_sublist.trans htallied.outstanding
    · have hlen := List.length_erase_of_mem hmem
      have hpos := List.length_pos_of_mem hmem
      simp only [Function.update_self, Ledger.settle, hlen]
      omega
  · cases hstep

theorem Tallied.withdrawn {startedAt : Moment} (htallied : Tallied w t)
    (htimely : Timely w (.withdrawn t startedAt))
    (hstep : w.step (.withdrawn t startedAt) = some w') : Tallied w' t := by
  have htally := htallied.tally
  simp only [Watch.step] at hstep
  split at hstep
  · rename_i hmem
    cases hstep
    have hle : (w.ledger t).settlements ≤ (w.ledger t).kept.length := by omega
    constructor
    · have hnot := notMem_take_of_le_idxOf htimely
      simp [PostgreSQLBatchObserver.withdrawn, Ledger.withdraw, htallied.entries,
        drop_erase hle hnot]
    · simpa [Ledger.withdraw] using htallied.nodup.erase _
    · simpa [Ledger.withdraw] using
        List.Subset.trans (List.erase_subset) htallied.known
    · simpa [Ledger.withdraw] using htallied.outstanding.erase startedAt
    · have hkept := htallied.outstanding.subset hmem
      have hpos := List.length_pos_of_mem hmem
      simp only [Function.update_self, Ledger.withdraw, List.length_erase_of_mem hmem,
        List.length_erase_of_mem hkept]
      omega
  · cases hstep

/-- A withdrawal that comes too late leaves the count one too high. -/
theorem Tallied.late {startedAt : Moment} (htallied : Tallied w t)
    (hlate : ¬Timely w (.withdrawn t startedAt))
    (hstep : w.step (.withdrawn t startedAt) = some w') : ¬Accounts t w' := by
  intro haccounts
  have htally := htallied.tally
  simp only [Watch.step] at hstep
  split at hstep
  · rename_i hmem
    cases hstep
    have htaken := mem_take_of_idxOf_lt (htallied.outstanding.subset hmem) (Nat.lt_of_not_le hlate)
    have hcounts := haccounts.counts
    have hpos := List.length_pos_of_mem hmem
    simp only [PostgreSQLBatchObserver.outstandingAccepted, PostgreSQLBatchObserver.withdrawn,
      Function.update_self, Ledger.withdraw, htallied.entries,
      erase_drop_of_mem_take htallied.nodup htaken, List.length_drop,
      List.length_erase_of_mem hmem] at hcounts
    omega
  · cases hstep

theorem Tallied.step (htallied : ∀ t, Tallied w t) (hdistinct : Distinct w report)
    (htimely : Timely w report) (hstep : w.step report = some w') : ∀ t, Tallied w' t := by
  intro t
  by_cases hne : t = report.dataType
  · subst hne
    cases report with
    | accepted t startedAt => exact (htallied t).accepted hdistinct hstep
    | settled t startedAt result now => exact (htallied t).settled hstep
    | withdrawn t startedAt => exact (htallied t).withdrawn htimely hstep
  · exact (htallied t).same (Watch.step_elsewhere hstep hne)

theorem Tallied.run {begun : Moment}
    (hrun : Watch.Run (fun w report => Distinct w report ∧ Timely w report) (.start begun) w) :
    ∀ t, Tallied w t := by
  induction hrun with
  | refl => exact fun t => .start begun
  | tail _ hlast ih =>
    obtain ⟨report, ⟨hdistinct, htimely⟩, hstep⟩ := hlast
    exact Tallied.step ih hdistinct htimely hstep

/-- While no withdrawal comes too late the count is right, and the first that does is where
    it goes wrong. -/
theorem settlement_accounting_iff (begun : Moment) (w : Watch)
    (hrun : Watch.Run (fun w report => Distinct w report ∧ Timely w report) (.start begun) w) :
    (∀ t, Accounts t w) ∧
      ∀ report w', Distinct w report → w.step report = some w' →
        ((∀ t, Accounts t w') ↔ Timely w report) := by
  have htallied := Tallied.run hrun
  constructor
  · exact fun t => (htallied t).accounts
  · intro report w' hdistinct hstep
    constructor
    · intro haccounts
      by_contra hlate
      cases report with
      | accepted t startedAt => exact hlate trivial
      | settled t startedAt result now => exact hlate trivial
      | withdrawn t startedAt => exact (htallied t).late hlate hstep (haccounts t)
    · exact fun htimely t => (Tallied.step htallied hdistinct htimely hstep t).accounts

/-- The oldest delivery settles, and the other is withdrawn. -/
def settleThenWithdraw : List Report :=
  [.accepted .artists 1, .accepted .artists 2, .settled .artists 1 ⟨.ack, "processed"⟩ 3,
    .withdrawn .artists 2]

theorem settlement_accounting_settled_then_withdrawn :
    ∃ w, (w.ledger .artists).outstanding = [] ∧ (∀ t, Accounts t w) ∧
      ∀ report w', Distinct w report → w.step report = some w' →
        ((∀ t, Accounts t w') ↔ Timely w report) := by
  have heval : (Effect.runWhile Watch.step (fun w report => Distinct w report ∧ Timely w report)
      (.start 0) settleThenWithdraw).map (fun w => (w.ledger .artists).outstanding) = some [] := by
    decide +kernel
  obtain ⟨w, hw, hdrained⟩ := Option.map_eq_some_iff.1 heval
  have hrun := Effect.runOf_of_runWhile Watch.step _ hw
  exact ⟨w, hdrained, settlement_accounting_iff 0 w hrun⟩

/-- The second delivery settles before the first is withdrawn: its settlement took the
    entry of the first, and its own stays. -/
def settleOutOfTurn : List Report :=
  [.accepted .artists 1, .accepted .artists 2, .settled .artists 2 ⟨.requeue, "held_timeout"⟩ 3,
    .withdrawn .artists 1]

theorem late_withdrawal_leaks :
    ∃ w, Watch.Run Distinct (.start 0) w ∧ (w.ledger .artists).accepted = [1, 2] ∧
      (w.ledger .artists).outstanding = [] ∧ w.observer.outstandingAccepted .artists = 1 := by
  have heval : (Effect.runWhile Watch.step Distinct (.start 0) settleOutOfTurn).map (fun w =>
      ((w.ledger .artists).accepted, (w.ledger .artists).outstanding,
        w.observer.outstandingAccepted .artists)) = some ([1, 2], [], 1) := by
    decide +kernel
  obtain ⟨w, hw, hview⟩ := Option.map_eq_some_iff.1 heval
  simp only [Prod.mk.injEq] at hview
  exact ⟨w, Effect.runOf_of_runWhile Watch.step _ hw, hview⟩

end Tableinator.Batch
