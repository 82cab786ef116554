import Tableinator.Batch.Observer
import Mathlib.Data.List.Perm.Basic
import Mathlib.Tactic.Linarith

/-! # Stall reports

Health reports a type whose oldest wait and whose last progress are both older than the
bound.  The deque answers for a stuck delivery only while, up to every moment since the
last progress, it still holds as many entries as there are deliveries outstanding.  A
hold that timed out keeps the oldest wait on record, and then the deque no longer
matters.  A delivery lost with its channel keeps nothing: when it was accepted after the
stuck one, it takes the entry that answered for that. -/

namespace Tableinator.Batch

/-- The reports read one clock. -/
def Clocked (w : Watch) : Report → Prop
  | .accepted _ startedAt => w.now ≤ startedAt
  | .settled _ _ _ now => w.now ≤ now
  | .withdrawn _ _ => True

/-- A delivery returned for another reason than a hold that timed out, while no wait is on
    record, was accepted no later than every other one outstanding or the last progress. -/
def InTurn (w : Watch) : Report → Prop
  | .settled t startedAt result _ =>
    result.settlement = .requeue → result.outcome ≠ "held_timeout" →
      w.observer.heldSince t = none →
        ∀ other ∈ (w.ledger t).outstanding.erase startedAt,
          startedAt ≤ max other (w.observer.lastSettledAt t)
  | _ => True

instance (w : Watch) : ∀ report, Decidable (Clocked w report)
  | .accepted _ _ => inferInstanceAs (Decidable (_ ≤ _))
  | .settled _ _ _ _ => inferInstanceAs (Decidable (_ ≤ _))
  | .withdrawn _ _ => isTrue trivial

instance (w : Watch) : ∀ report, Decidable (InTurn w report)
  | .accepted _ _ => isTrue trivial
  | .settled _ _ _ _ => inferInstanceAs (Decidable (_ → _ → _ → _))
  | .withdrawn _ _ => isTrue trivial

/-! ## Entries up to a moment -/

section
variable {l : List Moment} {a m : Moment}

def upTo (m : Moment) (l : List Moment) : Nat := l.countP (· ≤ m)

@[simp] theorem upTo_append (l l' : List Moment) : upTo m (l ++ l') = upTo m l + upTo m l' :=
  List.countP_append

theorem upTo_pos_iff : 0 < upTo m l ↔ ∃ a ∈ l, a ≤ m := by
  simp [upTo]

theorem upTo_eq_length (h : ∀ a ∈ l, a ≤ m) : upTo m l = l.length := by
  simpa [upTo] using h

theorem upTo_erase_add (hmem : a ∈ l) :
    upTo m (l.erase a) + (if a ≤ m then 1 else 0) = upTo m l := by
  rw [upTo, upTo, (List.perm_cons_erase hmem).countP_eq, List.countP_cons]
  simp

theorem upTo_le_tail : upTo m l ≤ upTo m l.tail + 1 := by
  cases l with
  | nil => simp [upTo]
  | cons oldest rest =>
    simp only [upTo, List.countP_cons, List.tail_cons]
    split <;> omega

theorem head_le_of_upTo_pos {oldest : Moment} (hsorted : l.Pairwise (· ≤ ·))
    (hhead : l.head? = some oldest) (hpos : 0 < upTo m l) : oldest ≤ m := by
  obtain ⟨a, hmem, hle⟩ := upTo_pos_iff.1 hpos
  cases l with
  | nil => simp at hhead
  | cons first rest =>
    cases hhead
    rcases List.mem_cons.1 hmem with rfl | hrest
    · exact hle
    · exact le_trans (List.rel_of_pairwise_cons hsorted hrest) hle

end

/-! ## What the observer knows of a type -/

structure Answering (begun : Moment) (w : Watch) (t : DataType) : Prop where
  sorted : (w.observer.acceptedAt t).Pairwise (· ≤ ·)
  entriesPast : ∀ entry ∈ w.observer.acceptedAt t, entry ≤ w.now
  outstandingPast : ∀ startedAt ∈ (w.ledger t).outstanding, startedAt ≤ w.now
  settledPast : w.observer.lastSettledAt t ≤ w.now
  heldPast : ∀ since ∈ w.observer.heldSince t, since ≤ w.now
  progress : ∀ since, begun ≤ since → (∀ now ∈ (w.ledger t).progress, now ≤ since) →
    w.observer.lastSettledAt t ≤ since
  enough : (w.ledger t).outstanding.length ≤ (w.observer.acceptedAt t).length
  /-- With no wait on record the deque answers for every delivery outstanding. -/
  queued : w.observer.heldSince t = none → ∀ m, w.observer.lastSettledAt t ≤ m →
    upTo m (w.ledger t).outstanding ≤ upTo m (w.observer.acceptedAt t)
  /-- Otherwise the wait does. -/
  held : ∀ since ∈ w.observer.heldSince t, ∀ startedAt ∈ (w.ledger t).outstanding,
    since ≤ max startedAt (w.observer.lastSettledAt t)

variable {begun : Moment} {w w' : Watch} {report : Report} {t : DataType}

theorem Answering.start : Answering begun (.start begun) t where
  sorted := .nil
  entriesPast := by simp [Watch.start, PostgreSQLBatchObserver.start]
  outstandingPast := by simp [Watch.start, Ledger.empty]
  settledPast := le_refl _
  heldPast := by simp [Watch.start, PostgreSQLBatchObserver.start]
  progress := fun _ hbegun _ => hbegun
  enough := le_refl _
  queued := fun _ _ _ => le_refl _
  held := by simp [Watch.start, PostgreSQLBatchObserver.start]

theorem Answering.same (hanswering : Answering begun w t) (hsame : w.Same t w')
    (hnow : w.now ≤ w'.now) : Answering begun w' t where
  sorted := by rw [hsame.acceptedAt]; exact hanswering.sorted
  entriesPast := by
    rw [hsame.acceptedAt]
    exact fun entry hmem => le_trans (hanswering.entriesPast entry hmem) hnow
  outstandingPast := by
    rw [hsame.ledger]
    exact fun startedAt hmem => le_trans (hanswering.outstandingPast startedAt hmem) hnow
  settledPast := by rw [hsame.lastSettledAt]; exact le_trans hanswering.settledPast hnow
  heldPast := by
    rw [hsame.heldSince]
    exact fun since hmem => le_trans (hanswering.heldPast since hmem) hnow
  progress := by rw [hsame.lastSettledAt, hsame.ledger]; exact hanswering.progress
  enough := by rw [hsame.acceptedAt, hsame.ledger]; exact hanswering.enough
  queued := by
    rw [hsame.acceptedAt, hsame.lastSettledAt, hsame.heldSince, hsame.ledger]
    exact hanswering.queued
  held := by
    rw [hsame.lastSettledAt, hsame.heldSince, hsame.ledger]
    exact hanswering.held

/-- The head of the deque is no younger than any delivery outstanding, up to the last
    progress. -/
theorem Answering.head_le {oldest startedAt : Moment} (hanswering : Answering begun w t)
    (hnone : w.observer.heldSince t = none) (hmem : startedAt ∈ (w.ledger t).outstanding)
    (hhead : (w.observer.acceptedAt t).head? = some oldest) :
    oldest ≤ max startedAt (w.observer.lastSettledAt t) := by
  have hcounted : 0 < upTo (max startedAt (w.observer.lastSettledAt t)) (w.ledger t).outstanding :=
    upTo_pos_iff.2 ⟨startedAt, hmem, le_max_left _ _⟩
  have hqueued := hanswering.queued hnone _ (le_max_right startedAt (w.observer.lastSettledAt t))
  exact head_le_of_upTo_pos hanswering.sorted hhead (lt_of_lt_of_le hcounted hqueued)

theorem Answering.exists_head {startedAt : Moment} (hanswering : Answering begun w t)
    (hmem : startedAt ∈ (w.ledger t).outstanding) :
    ∃ oldest, (w.observer.acceptedAt t).head? = some oldest := by
  have hpos := List.length_pos_of_mem hmem
  have henough := hanswering.enough
  cases hentries : w.observer.acceptedAt t with
  | nil =>
    rw [hentries, List.length_nil] at henough
    omega
  | cons oldest rest => exact ⟨oldest, rfl⟩

/-! ## One report -/

theorem Answering.accepted {startedAt : Moment} (hanswering : Answering begun w t)
    (hclocked : w.now ≤ startedAt) (hstep : w.step (.accepted t startedAt) = some w') :
    Answering begun w' t := by
  cases hstep
  have hentries : ∀ entry ∈ w.observer.acceptedAt t, entry ≤ startedAt :=
    fun entry hmem => le_trans (hanswering.entriesPast entry hmem) hclocked
  constructor
  · simpa [PostgreSQLBatchObserver.accepted, List.pairwise_append] using
      ⟨hanswering.sorted, hentries⟩
  · simp only [PostgreSQLBatchObserver.accepted, Function.update_self, List.mem_append,
      List.mem_singleton]
    rintro entry (hmem | rfl)
    · exact hentries entry hmem
    · exact le_refl _
  · simp only [Function.update_self, Ledger.accept, List.mem_append, List.mem_singleton]
    rintro other (hmem | rfl)
    · exact le_trans (hanswering.outstandingPast other hmem) hclocked
    · exact le_refl _
  · exact le_trans hanswering.settledPast hclocked
  · exact fun since hmem => le_trans (hanswering.heldPast since hmem) hclocked
  · simpa [PostgreSQLBatchObserver.accepted, Ledger.accept] using hanswering.progress
  · simpa [PostgreSQLBatchObserver.accepted, Ledger.accept] using hanswering.enough
  · intro hnone m hm
    have hqueued := hanswering.queued hnone m hm
    simp only [PostgreSQLBatchObserver.accepted, Function.update_self, Ledger.accept, upTo_append]
    omega
  · simp only [Function.update_self, Ledger.accept, List.mem_append, List.mem_singleton]
    rintro since hsince other (hmem | rfl)
    · exact hanswering.held since hsince other hmem
    · exact le_trans (le_trans (hanswering.heldPast since hsince) hclocked) (le_max_left _ _)

theorem Answering.withdrawn {startedAt : Moment} (hanswering : Answering begun w t)
    (hstep : w.step (.withdrawn t startedAt) = some w') : Answering begun w' t := by
  simp only [Watch.step] at hstep
  split at hstep
  · rename_i hout
    cases hstep
    constructor
    · simpa [PostgreSQLBatchObserver.withdrawn] using
        hanswering.sorted.sublist List.erase_sublist
    · simpa [PostgreSQLBatchObserver.withdrawn] using
        fun entry hmem => hanswering.entriesPast entry (List.mem_of_mem_erase hmem)
    · simpa [Ledger.withdraw] using
        fun other hmem => hanswering.outstandingPast other (List.mem_of_mem_erase hmem)
    · exact hanswering.settledPast
    · exact hanswering.heldPast
    · simpa [PostgreSQLBatchObserver.withdrawn, Ledger.withdraw] using hanswering.progress
    · have henough := hanswering.enough
      have hpos := List.length_pos_of_mem hout
      have hentries := List.le_length_erase (l := w.observer.acceptedAt t) (a := startedAt)
      simp only [PostgreSQLBatchObserver.withdrawn, Function.update_self, Ledger.withdraw,
        List.length_erase_of_mem hout]
      omega
    · intro hnone m hm
      have hqueued := hanswering.queued hnone m hm
      have houtstanding := upTo_erase_add (m := m) hout
      simp only [PostgreSQLBatchObserver.withdrawn, Function.update_self, Ledger.withdraw]
      by_cases hentry : startedAt ∈ w.observer.acceptedAt t
      · have hentries := upTo_erase_add (m := m) hentry
        omega
      · rw [List.erase_of_not_mem hentry]
        omega
    · intro since hsince other hmem
      simp only [Function.update_self, Ledger.withdraw] at hmem
      exact hanswering.held since hsince other (List.mem_of_mem_erase hmem)
  · cases hstep

/-- A record was dealt with: whatever is still outstanding was accepted before, and so
    were the entries left. -/
theorem Answering.progressed {startedAt now : Moment} {result : DeliveryResult}
    (hanswering : Answering begun w t) (hclocked : w.now ≤ now)
    (hprogress : result.settlement ≠ .requeue)
    (hstep : w.step (.settled t startedAt result now) = some w') : Answering begun w' t := by
  simp only [Watch.step] at hstep
  split at hstep
  · rename_i hout
    cases hstep
    have hentries : ∀ entry ∈ (w.observer.acceptedAt t).tail, entry ≤ now := fun entry hmem =>
      le_trans (hanswering.entriesPast entry (List.mem_of_mem_tail hmem)) hclocked
    have houtstanding : ∀ other ∈ (w.ledger t).outstanding.erase startedAt, other ≤ now :=
      fun other hmem =>
        le_trans (hanswering.outstandingPast other (List.mem_of_mem_erase hmem)) hclocked
    have henough : ((w.ledger t).outstanding.erase startedAt).length ≤
        (w.observer.acceptedAt t).tail.length := by
      have hle := hanswering.enough
      rw [List.length_erase_of_mem hout, List.length_tail]
      omega
    constructor
    · simpa using hanswering.sorted.sublist (List.tail_sublist _)
    · simpa using hentries
    · simpa [Ledger.settle] using houtstanding
    · simp [PostgreSQLBatchObserver.settled_lastSettledAt, hprogress]
    · simp [PostgreSQLBatchObserver.settled_heldSince, hprogress]
    · simp only [PostgreSQLBatchObserver.settled_lastSettledAt, hprogress, if_false,
        Function.update_self, Ledger.settle]
      exact fun since _ hafter => hafter now (List.mem_cons_self ..)
    · simpa [Ledger.settle] using henough
    · simp only [PostgreSQLBatchObserver.settled_lastSettledAt, hprogress, if_false,
        PostgreSQLBatchObserver.settled_acceptedAt, Function.update_self, Ledger.settle]
      intro _ m hm
      rw [upTo_eq_length fun other hmem => le_trans (houtstanding other hmem) hm,
        upTo_eq_length fun entry hmem => le_trans (hentries entry hmem) hm]
      exact henough
    · simp [PostgreSQLBatchObserver.settled_heldSince, hprogress]
  · cases hstep

/-- The parts of the invariant that a return to the broker keeps, whatever the reason. -/
theorem Answering.returned {startedAt now : Moment} {result : DeliveryResult}
    (hanswering : Answering begun w t) (hclocked : w.now ≤ now)
    (hrequeue : result.settlement = .requeue) (hout : startedAt ∈ (w.ledger t).outstanding)
    (hheldPast : ∀ since ∈ (w.observer.settled t now result).heldSince t, since ≤ now)
    (hqueued : (w.observer.settled t now result).heldSince t = none →
      ∀ m, w.observer.lastSettledAt t ≤ m →
        upTo m ((w.ledger t).outstanding.erase startedAt) ≤
          upTo m (w.observer.acceptedAt t).tail)
    (hheld : ∀ since ∈ (w.observer.settled t now result).heldSince t,
      ∀ other ∈ (w.ledger t).outstanding.erase startedAt,
        since ≤ max other (w.observer.lastSettledAt t)) :
    Answering begun ⟨w.observer.settled t now result,
      Function.update w.ledger t ((w.ledger t).settle startedAt result now), now⟩ t := by
  constructor
  · simpa using hanswering.sorted.sublist (List.tail_sublist _)
  · simpa using fun entry hmem =>
      le_trans (hanswering.entriesPast entry (List.mem_of_mem_tail hmem)) hclocked
  · simpa [Ledger.settle] using fun other hmem =>
      le_trans (hanswering.outstandingPast other (List.mem_of_mem_erase hmem)) hclocked
  · simpa [PostgreSQLBatchObserver.settled_lastSettledAt, hrequeue] using
      le_trans hanswering.settledPast hclocked
  · exact hheldPast
  · simpa [PostgreSQLBatchObserver.settled_lastSettledAt, hrequeue, Ledger.settle] using
      hanswering.progress
  · have hle := hanswering.enough
    simp only [PostgreSQLBatchObserver.settled_acceptedAt, Function.update_self, Ledger.settle,
      List.length_erase_of_mem hout, List.length_tail]
    omega
  · simpa [PostgreSQLBatchObserver.settled_lastSettledAt, hrequeue, Ledger.settle] using hqueued
  · simpa [PostgreSQLBatchObserver.settled_lastSettledAt, hrequeue, Ledger.settle] using hheld

/-- A delivery returned in its turn takes no entry that answers for another one. -/
theorem Answering.lost_in_turn {startedAt m : Moment} (hanswering : Answering begun w t)
    (hnone : w.observer.heldSince t = none) (hout : startedAt ∈ (w.ledger t).outstanding)
    (hturn : ∀ other ∈ (w.ledger t).outstanding.erase startedAt,
      startedAt ≤ max other (w.observer.lastSettledAt t))
    (hm : w.observer.lastSettledAt t ≤ m) :
    upTo m ((w.ledger t).outstanding.erase startedAt) ≤ upTo m (w.observer.acceptedAt t).tail := by
  rcases Nat.eq_zero_or_pos (upTo m ((w.ledger t).outstanding.erase startedAt)) with hzero | hpos
  · omega
  · -- another delivery that old came after this one, so both are counted
    obtain ⟨other, hother, hle⟩ := upTo_pos_iff.1 hpos
    have hearlier : startedAt ≤ m := le_trans (hturn other hother) (max_le hle hm)
    have hqueued := hanswering.queued hnone m hm
    have hcounted := upTo_erase_add (m := m) hout
    have htail := upTo_le_tail (m := m) (l := w.observer.acceptedAt t)
    simp only [hearlier, if_true] at hcounted
    omega

theorem Answering.requeued {startedAt now : Moment} {result : DeliveryResult}
    (hanswering : Answering begun w t) (hclocked : w.now ≤ now)
    (hturn : InTurn w (.settled t startedAt result now))
    (hrequeue : result.settlement = .requeue)
    (hstep : w.step (.settled t startedAt result now) = some w') : Answering begun w' t := by
  simp only [Watch.step] at hstep
  split at hstep
  · rename_i hout
    cases hstep
    have hheldSince := PostgreSQLBatchObserver.settled_heldSince t now result w.observer
    simp only [hrequeue, if_true] at hheldSince
    cases hwait : w.observer.heldSince t with
    | some since =>
      simp only [hwait, reduceCtorEq, and_false, if_false] at hheldSince
      apply hanswering.returned hclocked hrequeue hout
      · rw [hheldSince]
        rintro _ ⟨⟩
        exact le_trans (hanswering.heldPast since hwait) hclocked
      · simp [hheldSince]
      · rw [hheldSince]
        rintro _ ⟨⟩ other hmem
        exact hanswering.held since hwait other (List.mem_of_mem_erase hmem)
    | none =>
      by_cases hheld : result.outcome = "held_timeout"
      · obtain ⟨oldest, hhead⟩ := hanswering.exists_head hout
        simp only [hheld, hwait, hhead, and_self, if_true, Option.getD_some] at hheldSince
        apply hanswering.returned hclocked hrequeue hout
        · rw [hheldSince]
          rintro _ ⟨⟩
          exact le_trans (hanswering.entriesPast oldest (List.mem_of_head? hhead)) hclocked
        · simp [hheldSince]
        · rw [hheldSince]
          rintro _ ⟨⟩ other hmem
          exact hanswering.head_le hwait (List.mem_of_mem_erase hmem) hhead
      · simp only [hheld, hwait, false_and, if_false] at hheldSince
        apply hanswering.returned hclocked hrequeue hout
        · simp [hheldSince]
        · exact fun _ m hm =>
            hanswering.lost_in_turn hwait hout (hturn hrequeue hheld hwait) hm
        · simp [hheldSince]
  · cases hstep

/-! ## Runs -/

theorem Watch.step_now (hclocked : Clocked w report) (hstep : w.step report = some w') :
    w.now ≤ w'.now := by
  cases report with
  | accepted t startedAt =>
    cases hstep
    exact hclocked
  | settled t startedAt result now =>
    simp only [step] at hstep
    split at hstep
    · cases hstep
      exact hclocked
    · cases hstep
  | withdrawn t startedAt =>
    simp only [step] at hstep
    split at hstep
    · cases hstep
      exact le_refl _
    · cases hstep

theorem Answering.step (hanswering : Answering begun w t) (hclocked : Clocked w report)
    (hturn : InTurn w report) (hstep : w.step report = some w') : Answering begun w' t := by
  by_cases hne : t = report.dataType
  · subst hne
    cases report with
    | accepted t startedAt => exact hanswering.accepted hclocked hstep
    | settled t startedAt result now =>
      by_cases hrequeue : result.settlement = .requeue
      · exact hanswering.requeued hclocked hturn hrequeue hstep
      · exact hanswering.progressed hclocked hrequeue hstep
    | withdrawn t startedAt => exact hanswering.withdrawn hstep
  · exact hanswering.same (Watch.step_elsewhere hstep hne) (Watch.step_now hclocked hstep)

theorem Answering.run
    (hrun : Watch.Run (fun w report => Clocked w report ∧ InTurn w report) (.start begun) w) :
    Answering begun w t := by
  induction hrun with
  | refl => exact .start
  | tail _ hlast ih =>
    obtain ⟨report, ⟨hclocked, hturn⟩, hstep⟩ := hlast
    exact ih.step hclocked hturn hstep

/-- Some age the report takes the greatest of is that of a wait begun by the last progress
    or by the acceptance of the delivery. -/
theorem Answering.age {startedAt : Moment} (hanswering : Answering begun w t)
    (hmem : startedAt ∈ (w.ledger t).outstanding) (now : Moment) :
    now - max startedAt (w.observer.lastSettledAt t) ≤
      max (w.observer.oldestUnsettledAgeS t now) (w.observer.heldAgeS t now) := by
  cases hwait : w.observer.heldSince t with
  | some since =>
    have hle := hanswering.held since hwait startedAt hmem
    refine le_trans ?_ (le_max_right _ _)
    simp only [PostgreSQLBatchObserver.heldAgeS, hwait]
    linarith
  | none =>
    obtain ⟨oldest, hhead⟩ := hanswering.exists_head hmem
    have hle := hanswering.head_le hwait hmem hhead
    refine le_trans ?_ (le_max_left _ _)
    obtain ⟨rest, hentries⟩ := List.head?_eq_some_iff.1 hhead
    simp only [PostgreSQLBatchObserver.oldestUnsettledAgeS, hentries]
    linarith

/-- A delivery left unsettled is reported once it and the last progress are both older than
    the bound, if every delivery lost with its channel was lost in its turn. -/
theorem stalls_are_reported (begun : Moment) (w : Watch)
    (hrun : Watch.Run (fun w report => Clocked w report ∧ InTurn w report) (.start begun) w)
    (t : DataType) (bound startedAt since now : Moment) (queued : DataType → Moment)
    (hout : startedAt ∈ (w.ledger t).outstanding) (hbegun : begun ≤ since)
    (hprogress : ∀ progress ∈ (w.ledger t).progress, progress ≤ since)
    (hlate : max startedAt since + bound < now) :
    (stalled w.observer queued bound now t).isSome = true := by
  have hanswering : Answering begun w t := .run hrun
  have hsince := hanswering.progress since hbegun hprogress
  have hage := hanswering.age hout now
  have hmax : max startedAt (w.observer.lastSettledAt t) ≤ max startedAt since :=
    max_le_max (le_refl _) hsince
  have hle : since ≤ max startedAt since := le_max_right _ _
  simp only [stalled]
  rw [if_pos]
  · rfl
  · constructor
    · calc bound < now - max startedAt (w.observer.lastSettledAt t) := by linarith
        _ ≤ max (w.observer.oldestUnsettledAgeS t now) (w.observer.heldAgeS t now) := hage
        _ ≤ _ := max_le_max (le_max_right _ _) (le_refl _)
    · linarith

/-- The second delivery is lost before the first: held first, then lost. -/
def lostInTurn : List Report :=
  [.accepted .artists 0, .accepted .artists 1000, .settled .artists 0 ⟨.requeue, "held_timeout"⟩ 1001,
    .accepted .artists 1002, .settled .artists 1002 ⟨.requeue, "delivery_lost"⟩ 1003]

theorem stalls_are_reported_lost_in_turn :
    ∃ w : Watch, (w.ledger .artists).outstanding = [1000] ∧
      (stalled w.observer (fun _ => 0) 300 1301 .artists).isSome = true := by
  have heval : (Effect.runWhile Watch.step (fun w report => Clocked w report ∧ InTurn w report)
      (.start 0) lostInTurn).map (fun w =>
        ((w.ledger .artists).outstanding, (w.ledger .artists).progress)) = some ([1000], []) := by
    decide +kernel
  obtain ⟨w, hw, hview⟩ := Option.map_eq_some_iff.1 heval
  have hrun := Effect.runOf_of_runWhile Watch.step _ hw
  simp only [Prod.mk.injEq] at hview
  obtain ⟨hout, hprogress⟩ := hview
  exact ⟨w, hout, stalls_are_reported 0 w hrun .artists 300 1000 0 1301 (fun _ => 0)
    (by simp [hout]) (by decide) (by simp [hprogress]) (by decide +kernel)⟩

/-- The second delivery is lost with its channel and takes the entry of the first. -/
def lostOutOfTurn : List Report :=
  [.accepted .artists 0, .accepted .artists 1000,
    .settled .artists 1000 ⟨.requeue, "delivery_lost"⟩ 1001]

theorem stuck_delivery_is_not_reported :
    ∃ w, Watch.Run Clocked (.start 0) w ∧ (w.ledger .artists).outstanding = [0] ∧
      (w.ledger .artists).progress = [] ∧
      stalled w.observer (fun _ => 0) 300 1002 .artists = none := by
  have heval : (Effect.runWhile Watch.step Clocked (.start 0) lostOutOfTurn).map (fun w =>
      ((w.ledger .artists).outstanding, (w.ledger .artists).progress,
        stalled w.observer (fun _ => 0) 300 1002 .artists)) = some ([0], [], none) := by
    decide +kernel
  obtain ⟨w, hw, hview⟩ := Option.map_eq_some_iff.1 heval
  simp only [Prod.mk.injEq] at hview
  exact ⟨w, Effect.runOf_of_runWhile Watch.step _ hw, hview⟩

end Tableinator.Batch
