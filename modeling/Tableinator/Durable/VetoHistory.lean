import Mathlib.Data.Set.Card
import Mathlib.Logic.Embedding.Basic
import Tableinator.Durable.Terminal
import Tableinator.Durable.Veto

/-! # The veto history

One vetoed purge followed by a clean one is normal.  A record rejected in every dump
vetoes every purge, and its stale rows never clear, so the loader counts back over its
extractions and raises an alert.  The count is read off the latch, which every restart
and every redelivery finds again; vetoes are never taken back, so an alert ends only
when a newer extraction of the type gets through clean. -/

namespace Tableinator.Durable

open Relational Effect.Program

variable {db db' : RefreshDb} {t : DataType} {v w c : String}

/-! ## Counting back -/

section

variable {κ : Type} [LinearOrder κ]

/-- `veto_history_statement`: every extraction of this loader, `ORDER BY version DESC`.
    `collate` gives the sort keys of the database's collation. -/
def vetoHistory (collate : String ↪ κ) (db : RefreshDb) : List (String × LatchRow) :=
  db.latch.rows.insertionSort fun a b => collate b.1 ≤ collate a.1

/-- The loop of `consecutive_purge_vetoes`. -/
def countVetoes (t : DataType) : List (String × LatchRow) → Nat → Nat
  | [], consecutive => consecutive
  | (_, row) :: rows, consecutive =>
    if t ∈ row.purgeVetoed then countVetoes t rows (consecutive + 1)
    else if t ∈ row.signals then consecutive
    else countVetoes t rows consecutive

/-- `consecutive_purge_vetoes`. -/
def consecutivePurgeVetoes (collate : String ↪ κ) (t : DataType) (db : RefreshDb) : Nat :=
  countVetoes t (vetoHistory collate db) 0

/-! ## The report -/

/-- What answers a report in a process with its pool, its admission and the declared latch:
    the count is read off the tables. -/
def tableReply (collate : String ↪ κ) (db : RefreshDb) : {ρ : Type} → Call ρ → Except Failure ρ
  | _, .consecutivePurgeVetoes dataType => .ok (consecutivePurgeVetoes collate dataType db)
  | _, op => Loader.smoothReply op

def raisesAlert : {ρ : Type} → Call ρ → Bool
  | _, .alertPurgeVetoes _ _ => true
  | _, _ => false

/-- `report_purge_vetoes` over these tables raises its alert. -/
def purgeVetoAlert (collate : String ↪ κ) (t : DataType) (db : RefreshDb) : Bool :=
  ((reportPurgeVetoes t).trace (fun _ _ op => tableReply collate db op) []).2.any fun entry =>
    raisesAlert entry.op

/-- The report alerts when its count is at the threshold. -/
theorem purgeVetoAlert_eq (collate : String ↪ κ) (t : DataType) (db : RefreshDb) :
    purgeVetoAlert collate t db = decide (purgeVetoAlertRuns ≤ consecutivePurgeVetoes collate t db) := by
  by_cases halert : purgeVetoAlertRuns ≤ consecutivePurgeVetoes collate t db
  · have hpublish : publishPurgeVetoes t (some (consecutivePurgeVetoes collate t db)) = (do
        await (.recordPurgeConsecutiveVetoes t (consecutivePurgeVetoes collate t db))
        await (.alertPurgeVetoes t (consecutivePurgeVetoes collate t db))) := by
      simp only [publishPurgeVetoes, halert, if_true]
    rw [decide_eq_true halert]
    change ((publishPurgeVetoes t (some (consecutivePurgeVetoes collate t db))).trace _ _).2.any _ = true
    rw [hpublish]
    rfl
  · have hpublish : publishPurgeVetoes t (some (consecutivePurgeVetoes collate t db)) = (do
        await (.recordPurgeConsecutiveVetoes t (consecutivePurgeVetoes collate t db))
        pure ()) := by
      simp only [publishPurgeVetoes, halert, if_false]
    rw [decide_eq_false halert]
    change ((publishPurgeVetoes t (some (consecutivePurgeVetoes collate t db))).trace _ _).2.any _ = false
    rw [hpublish]
    rfl

/-! ## What the count means -/

/-- The extraction signalled the type without a veto. -/
def SignalledClean (t : DataType) (db : RefreshDb) (v : String) : Prop :=
  ∃ row, db.latch.lookup v = some row ∧ t ∈ row.signals ∧ t ∉ row.purgeVetoed

/-- The vetoed extractions that no clean one has followed. -/
def Unrelieved (collate : String ↪ κ) (t : DataType) (db : RefreshDb) : Set String :=
  {v | purgeWasVetoed v t db = true ∧ ∀ c, SignalledClean t db c → collate c < collate v}

/-- The entries of a history, newest first, that a clean one has not ended. -/
def openEntries (t : DataType) : List (String × LatchRow) → List String
  | [] => []
  | (k, row) :: rows =>
    if t ∈ row.purgeVetoed then k :: openEntries t rows
    else if t ∈ row.signals then []
    else openEntries t rows

variable {rows : List (String × LatchRow)} {collate : String ↪ κ}

theorem countVetoes_eq (n : Nat) : countVetoes t rows n = n + (openEntries t rows).length := by
  induction rows generalizing n with
  | nil => rfl
  | cons entry rows ih =>
    simp only [countVetoes, openEntries]
    split
    · rw [ih, List.length_cons]
      omega
    · split
      · rfl
      · exact ih n

theorem openEntries_sublist : (openEntries t rows).Sublist (rows.map Prod.fst) := by
  induction rows with
  | nil => exact .slnil
  | cons entry rows ih =>
    simp only [openEntries, List.map_cons]
    split
    · exact ih.cons_cons _
    · split
      · exact List.nil_sublist _
      · exact ih.cons _

theorem mem_openEntries (hsorted : rows.Pairwise fun a b => collate b.1 < collate a.1) :
    v ∈ openEntries t rows ↔ (∃ row, (v, row) ∈ rows ∧ t ∈ row.purgeVetoed) ∧
      ∀ c row, (c, row) ∈ rows → t ∈ row.signals → t ∉ row.purgeVetoed →
        collate c < collate v := by
  induction rows with
  | nil => simp [openEntries]
  | cons entry rows ih =>
    obtain ⟨k₀, row₀⟩ := entry
    obtain ⟨hnewest, hrest⟩ := List.pairwise_cons.1 hsorted
    have ih := ih hrest
    simp only [openEntries]
    split
    · next hvetoed =>
      rw [List.mem_cons, ih]
      constructor
      · -- the newest entry is vetoed: it is open, and the older ones stay as they were
        intro hk
        rcases hk with rfl | ⟨⟨row, hmem, hrow⟩, hclean⟩
        · refine ⟨⟨row₀, List.mem_cons_self, hvetoed⟩, ?_⟩
          intro c row hmem _ hnot
          rcases List.mem_cons.1 hmem with heq | hmem
          · cases heq
            exact absurd hvetoed hnot
          · exact hnewest _ hmem
        · refine ⟨⟨row, List.mem_cons_of_mem _ hmem, hrow⟩, ?_⟩
          intro c row' hmem' hsignal hnot
          rcases List.mem_cons.1 hmem' with heq | hmem'
          · cases heq
            exact absurd hvetoed hnot
          · exact hclean c row' hmem' hsignal hnot
      · rintro ⟨⟨row, hmem, hrow⟩, hclean⟩
        rcases List.mem_cons.1 hmem with heq | hmem
        · cases heq
          exact .inl rfl
        · refine .inr ⟨⟨row, hmem, hrow⟩, ?_⟩
          intro c row' hmem'
          exact hclean c row' (List.mem_cons_of_mem _ hmem')
    · next hvetoed =>
      split
      · next hsignal =>
        -- The newest entry is clean: nothing below it is newer.
        simp only [List.not_mem_nil, false_iff]
        rintro ⟨⟨row, hmem, hrow⟩, hclean⟩
        have hlt := hclean k₀ row₀ List.mem_cons_self hsignal hvetoed
        rcases List.mem_cons.1 hmem with heq | hmem
        · cases heq
          exact absurd hrow hvetoed
        · exact absurd (hnewest _ hmem) hlt.asymm
      · next hsignal =>
        rw [ih]
        constructor
        · rintro ⟨⟨row, hmem, hrow⟩, hclean⟩
          refine ⟨⟨row, List.mem_cons_of_mem _ hmem, hrow⟩, ?_⟩
          intro c row' hmem' hsignal'
          rcases List.mem_cons.1 hmem' with heq | hmem'
          · cases heq
            exact absurd hsignal' hsignal
          · exact hclean c row' hmem' hsignal'
        · rintro ⟨⟨row, hmem, hrow⟩, hclean⟩
          rcases List.mem_cons.1 hmem with heq | hmem
          · cases heq
            exact absurd hrow hvetoed
          · refine ⟨⟨row, hmem, hrow⟩, ?_⟩
            intro c row' hmem'
            exact hclean c row' (List.mem_cons_of_mem _ hmem')

theorem openEntries_nodup (hsorted : rows.Pairwise fun a b => collate b.1 < collate a.1) :
    (openEntries t rows).Nodup := by
  have hkeys : (rows.map Prod.fst).Nodup := by
    refine List.Pairwise.map _ ?_ hsorted
    intro a b hlt heq
    rw [heq] at hlt
    exact lt_irrefl _ hlt
  exact hkeys.sublist openEntries_sublist

/-- The history is strictly descending: versions are the key, and sort keys tell them
    apart. -/
theorem vetoHistory_sorted (collate : String ↪ κ) (db : RefreshDb) :
    (vetoHistory collate db).Pairwise fun a b => collate b.1 < collate a.1 := by
  have hperm := List.perm_insertionSort
    (fun a b : String × LatchRow => collate b.1 ≤ collate a.1) db.latch.rows
  have hdistinct : (vetoHistory collate db).Pairwise fun a b => a.1 ≠ b.1 := by
    refine hperm.symm.pairwise ?_ (fun {_ _} h => Ne.symm h)
    exact db.latch.rows_sorted.imp fun hlt => ne_of_lt hlt
  have htotal : Std.Total fun a b : String × LatchRow => collate b.1 ≤ collate a.1 :=
    ⟨fun a b => le_total (collate b.1) (collate a.1)⟩
  have htrans : IsTrans (String × LatchRow) fun a b => collate b.1 ≤ collate a.1 :=
    ⟨fun a b c hab hbc => hbc.trans hab⟩
  have hsorted := List.pairwise_insertionSort
    (fun a b : String × LatchRow => collate b.1 ≤ collate a.1) db.latch.rows
  refine (hsorted.and hdistinct).imp ?_
  rintro a b ⟨hle, hne⟩
  exact lt_of_le_of_ne hle (collate.injective.ne hne.symm)

theorem mem_vetoHistory {row : LatchRow} :
    (v, row) ∈ vetoHistory collate db ↔ db.latch.lookup v = some row := by
  rw [vetoHistory, List.mem_insertionSort, Table.mem_rows]

theorem mem_unrelieved :
    v ∈ openEntries t (vetoHistory collate db) ↔ v ∈ Unrelieved collate t db := by
  rw [mem_openEntries (vetoHistory_sorted collate db)]
  simp only [mem_vetoHistory, Unrelieved, SignalledClean, Set.mem_ofPred_eq, purgeWasVetoed_iff]
  refine and_congr_right fun _ => ?_
  constructor
  · rintro h c ⟨row, hrow, hsignal, hnot⟩
    exact h c row hrow hsignal hnot
  · intro h c row hrow hsignal hnot
    exact h c ⟨row, hrow, hsignal, hnot⟩

/-- The loop counts the vetoed extractions that no clean one has followed. -/
theorem consecutivePurgeVetoes_eq (collate : String ↪ κ) (t : DataType) (db : RefreshDb) :
    consecutivePurgeVetoes collate t db = (Unrelieved collate t db).ncard := by
  have hnodup := openEntries_nodup (t := t) (vetoHistory_sorted collate db)
  have hset : Unrelieved collate t db =
      ((openEntries t (vetoHistory collate db)).toFinset : Set String) := by
    ext v
    rw [List.coe_toFinset, Set.mem_ofPred_eq, mem_unrelieved]
  rw [consecutivePurgeVetoes, countVetoes_eq, Nat.zero_add, hset, Set.ncard_coe_finset,
    List.toFinset_card_of_nodup hnodup]

theorem unrelieved_finite (collate : String ↪ κ) (t : DataType) (db : RefreshDb) :
    (Unrelieved collate t db).Finite := by
  refine (List.finite_toSet (openEntries t (vetoHistory collate db))).subset ?_
  intro v hv
  exact mem_unrelieved.2 hv

/-- The alert stands for two vetoed extractions with no clean one after the older. -/
theorem purgeVetoAlert_iff :
    purgeVetoAlert collate t db = true ↔ ∃ v w, collate v < collate w ∧
      purgeWasVetoed v t db = true ∧ purgeWasVetoed w t db = true ∧
      ∀ c, SignalledClean t db c → collate c < collate v := by
  rw [purgeVetoAlert_eq, decide_eq_true_eq, consecutivePurgeVetoes_eq]
  constructor
  · intro halert
    have hmany : 1 < (Unrelieved collate t db).ncard := halert
    obtain ⟨v, w, hv, hw, hne⟩ := (Set.one_lt_ncard_iff (unrelieved_finite _ _ _)).1 hmany
    rcases lt_or_gt_of_ne (collate.injective.ne hne) with hlt | hlt
    · exact ⟨v, w, hlt, hv.1, hw.1, hv.2⟩
    · exact ⟨w, v, hlt, hw.1, hv.1, hw.2⟩
  · rintro ⟨v, w, hlt, hv, hw, hclean⟩
    have hne : v ≠ w := by
      rintro rfl
      exact lt_irrefl _ hlt
    refine (Set.one_lt_ncard_iff (unrelieved_finite _ _ _)).2 ⟨v, w, ⟨hv, hclean⟩, ?_, hne⟩
    exact ⟨hw, fun c hc => (hclean c hc).trans hlt⟩

/-! ## Over a run -/

/-- An extraction that got through clean only now, newer than a veto it relieves. -/
def RelievedBetween (collate : String ↪ κ) (t : DataType) (db db' : RefreshDb) : Prop :=
  ∃ v ∈ Unrelieved collate t db, ∃ c, collate v < collate c ∧
    SignalledClean t db' c ∧ ¬SignalledClean t db c

theorem SignalledClean.ne_of_vetoed (hclean : SignalledClean t db c)
    (hveto : purgeWasVetoed v t db = true) : v ≠ c := by
  rintro rfl
  obtain ⟨row, hrow, _, hnot⟩ := hclean
  obtain ⟨row', hrow', hmem⟩ := purgeWasVetoed_iff.1 hveto
  rw [hrow] at hrow'
  cases hrow'
  exact hnot hmem

/-- While vetoes are kept, only a newer clean extraction relieves one. -/
theorem VetoKept.unrelieved_subset (hkept : VetoKept db db')
    (hnone : ¬RelievedBetween collate t db db') :
    Unrelieved collate t db ⊆ Unrelieved collate t db' := by
  rintro v ⟨hveto, hclean⟩
  have hveto' := hkept v t hveto
  refine ⟨hveto', ?_⟩
  intro c hc
  by_cases hbefore : SignalledClean t db c
  · exact hclean c hbefore
  · by_contra hle
    have hlt := lt_of_le_of_ne (not_lt.1 hle) (collate.injective.ne (hc.ne_of_vetoed hveto'))
    exact hnone ⟨v, ⟨hveto, hclean⟩, c, hlt, hc, hbefore⟩

theorem VetoKept.consecutive_le (hkept : VetoKept db db')
    (hnone : ¬RelievedBetween collate t db db') :
    consecutivePurgeVetoes collate t db ≤ consecutivePurgeVetoes collate t db' := by
  rw [consecutivePurgeVetoes_eq, consecutivePurgeVetoes_eq]
  exact Set.ncard_le_ncard (hkept.unrelieved_subset hnone) (unrelieved_finite _ _ _)

namespace Deployment

variable {R : Type} {s s' : Deployment R}

theorem run_vetoKept {l : Deployment R} (hsound : l.Sound) (hrun : Run LatchDeclared l s') :
    VetoKept l.cluster.db s'.cluster.db := by
  induction hrun with
  | refl => exact .refl _
  | tail hprefix hstep ih =>
    obtain ⟨event, _, hevent⟩ := hstep
    exact ih.trans (step_vetoKept (run_sound hsound hprefix) hevent)

/-- Over any run, with restarts, redeliveries and both modes mixed, the count is that of
    the vetoed extractions no clean one has followed.  It goes down only when a newer
    extraction got through clean; and once two extractions of a type had a vetoed delivery
    acked, the alert is raised unless a clean extraction is newer than the older of them. -/
theorem veto_alert_persists {l : Deployment R} (collate : String ↪ κ) (t : DataType)
    (hstart : s.Starts) (hrun : Run LatchDeclared s l) (hrun' : Run LatchDeclared l s') :
    consecutivePurgeVetoes collate t s'.cluster.db =
      (Unrelieved collate t s'.cluster.db).ncard ∧
    (RelievedBetween collate t l.cluster.db s'.cluster.db ∨
      consecutivePurgeVetoes collate t l.cluster.db ≤
        consecutivePurgeVetoes collate t s'.cluster.db) ∧
    ∀ d d' v w, (d, true) ∈ s'.acks → (d', true) ∈ s'.acks →
      extractionLatchKey d = some v → extractionLatchKey d' = some w →
      d.dataType = t → d'.dataType = t → collate v < collate w →
      purgeVetoAlert collate t s'.cluster.db = true ∨
        ∃ c, SignalledClean t s'.cluster.db c ∧ collate v < collate c := by
  have hsound := (run_accountable hstart hrun).1
  obtain ⟨_, haccountable, _⟩ := run_accountable hstart (hrun.trans hrun')
  refine ⟨consecutivePurgeVetoes_eq _ _ _, ?_, ?_⟩
  · by_cases hrelieved : RelievedBetween collate t l.cluster.db s'.cluster.db
    · exact .inl hrelieved
    · exact .inr ((run_vetoKept hsound hrun').consecutive_le hrelieved)
  · intro d d' v w hack hack' hkey hkey' htype htype' hlt
    have hveto := haccountable.acks d hack v hkey
    have hveto' := haccountable.acks d' hack' w hkey'
    rw [htype] at hveto
    rw [htype'] at hveto'
    by_cases hclean : ∃ c, SignalledClean t s'.cluster.db c ∧ collate v < collate c
    · exact .inr hclean
    · refine .inl (purgeVetoAlert_iff.2 ⟨v, w, hlt, hveto, hveto', ?_⟩)
      intro c hc
      have hle : collate c ≤ collate v := not_lt.1 fun hgt => hclean ⟨c, hc, hgt⟩
      exact lt_of_le_of_ne hle (collate.injective.ne (hc.ne_of_vetoed hveto).symm)

def vetoedSignal (version startedAt : String) : Delivery :=
  ⟨.artists, version, startedAt, none⟩

/-- The artists signal of the next month, vetoed by the dead letters still waiting. -/
def nextMonthVetoed : List (ServiceEvent Nat) :=
  .deliver .durable (vetoedSignal "20240201" "2024-02-02") ::
    List.replicate 14 (.answer 0 ⟨deadLetters, 0⟩)

theorem veto_alert_persists_months :
    ∃ l s' : Deployment Nat, Run LatchDeclared (boot .empty 0) l ∧ Run LatchDeclared l s' ∧
      purgeVetoAlert (.refl String) .artists l.cluster.db = false ∧
      (RelievedBetween (.refl String) .artists l.cluster.db s'.cluster.db ∨
        consecutivePurgeVetoes (.refl String) .artists l.cluster.db ≤
          consecutivePurgeVetoes (.refl String) .artists s'.cluster.db) ∧
      (purgeVetoAlert (.refl String) .artists s'.cluster.db = true ∨
        ∃ c, SignalledClean .artists s'.cluster.db c ∧ "20240101" < c) := by
  have hfirst : ((boot .empty 0).runEvents vetoedDelivery).map (fun s : Deployment Nat =>
      purgeVetoAlert (.refl String) .artists s.cluster.db) = some false := by
    decide +kernel
  have hboth : ((boot .empty 0).runEvents (vetoedDelivery ++ nextMonthVetoed)).map
      (fun s : Deployment Nat => s.acks) =
      some [(vetoedSignal "20240201" "2024-02-02", true),
        (vetoedSignal "20240101" "2024-01-02", true)] := by
    decide +kernel
  obtain ⟨l, hl, halert⟩ := Option.map_eq_some_iff.1 hfirst
  rw [runEvents_append, hl, Option.bind_some] at hboth
  obtain ⟨s', hs', hacks⟩ := Option.map_eq_some_iff.1 hboth
  have hrun : Run LatchDeclared (boot .empty 0) l :=
    run_of_runEvents (latchDeclared_replicate ⟨rfl, rfl⟩) hl
  have hrun' : Run LatchDeclared l s' := run_of_runEvents (latchDeclared_replicate ⟨rfl, rfl⟩) hs'
  obtain ⟨_, hcount, hraised⟩ :=
    veto_alert_persists (.refl String) .artists boot_starts hrun hrun'
  refine ⟨l, s', hrun, hrun', halert, hcount, ?_⟩
  exact hraised (vetoedSignal "20240101" "2024-01-02") (vetoedSignal "20240201" "2024-02-02")
    "20240101" "20240201" (by simp [hacks]) (by simp [hacks]) (by decide +kernel)
    (by decide +kernel) rfl rfl (by decide)

end Deployment

end

end Tableinator.Durable
