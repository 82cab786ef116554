import Mathlib.Data.Set.Insert
import Mathlib.Logic.Function.Basic
import Mathlib.Logic.Relation
import Mathlib.Order.Basic

/-! # Waiting for rows

Transactions that touch rows one after another and keep what they took until they
end.  A transaction is the list of its accesses, each the set of keys it may touch; it
waits while another one holds a key of its next access.

If every transaction comes to the keys it shares with others in ascending order, no
cycle of transactions ever waits for itself (`Claims.waits_acyclic`): along a chain of
waiting transactions the keys they wait for ascend strictly. -/

namespace Relational

variable {ι κ : Type}

/-- What each transaction has still to touch, and the keys it holds. -/
structure Claims (ι κ : Type) where
  todo : ι → List (Set κ)
  held : ι → Set κ

namespace Claims

def start (accesses : ι → List (Set κ)) : Claims ι κ := ⟨accesses, fun _ => ∅⟩

/-- The next access of `i` includes `k`. -/
def Wants (c : Claims ι κ) (i : ι) (k : κ) : Prop := ∃ access rest, c.todo i = access :: rest ∧ k ∈ access

def WaitsAt (c : Claims ι κ) (i : ι) (k : κ) (j : ι) : Prop := c.Wants i k ∧ k ∈ c.held j ∧ j ≠ i

/-- The wait-for graph. -/
def WaitsFor (c : Claims ι κ) (i j : ι) : Prop := ∃ k, c.WaitsAt i k j

section

variable [DecidableEq ι]

/-- A transaction takes a key of its next access, goes on to the one after, or ends. -/
inductive Step (c : Claims ι κ) : Claims ι κ → Prop
  | take {i : ι} {k : κ} (hwants : c.Wants i k) (hfree : ∀ j, j ≠ i → k ∉ c.held j) :
      Step c { c with held := Function.update c.held i (insert k (c.held i)) }
  | advance {i : ι} {access : Set κ} {rest : List (Set κ)} (hnext : c.todo i = access :: rest)
      (hfree : ∀ k ∈ access, ∀ j, j ≠ i → k ∉ c.held j) :
      Step c { c with todo := Function.update c.todo i rest }
  | close {i : ι} : Step c ⟨Function.update c.todo i [], Function.update c.held i ∅⟩

/-- The states of every interleaving. -/
def Reachable (accesses : ι → List (Set κ)) (c : Claims ι κ) : Prop :=
  Relation.ReflTransGen Step (start accesses) c

end

/-! ## What a transaction holds -/

/-- The transaction is somewhere in its accesses, or has ended. -/
def Underway (accesses : List (Set κ)) (todo : List (Set κ)) (held : Set κ) : Prop :=
  ∃ past, past ++ todo = accesses ∧ ∀ k ∈ held, (∃ access ∈ past, k ∈ access) ∨
    ∃ access rest, todo = access :: rest ∧ k ∈ access

structure Sane (accesses : ι → List (Set κ)) (c : Claims ι κ) : Prop where
  exclusive : ∀ {i j k}, i ≠ j → k ∈ c.held i → k ∉ c.held j
  underway : ∀ i, Underway (accesses i) (c.todo i) (c.held i) ∨ c.todo i = [] ∧ c.held i = ∅

variable {accesses : ι → List (Set κ)} {c c' : Claims ι κ} {i j : ι} {k k' : κ}

theorem sane_start (accesses : ι → List (Set κ)) : Sane accesses (start accesses) where
  exclusive _ h := by simp [start] at h
  underway i := .inl ⟨[], rfl, fun k hk => by simp [start] at hk⟩

/-- Keys no other transaction holds may be added to one. -/
theorem Sane.exclusive_update [DecidableEq ι] (h : Sane accesses c) {keys : Set κ}
    (hkeys : ∀ k ∈ keys, k ∈ c.held i ∨ ∀ j, j ≠ i → k ∉ c.held j) {a b : ι} (hne : a ≠ b)
    (ha : k ∈ Function.update c.held i keys a) : k ∉ Function.update c.held i keys b := by
  intro hb
  by_cases hai : a = i
  · subst hai
    rw [Function.update_self] at ha
    rw [Function.update_of_ne hne.symm] at hb
    rcases hkeys k ha with hmine | hfree
    · exact h.exclusive hne hmine hb
    · exact hfree b hne.symm hb
  · rw [Function.update_of_ne hai] at ha
    by_cases hbi : b = i
    · subst hbi
      rw [Function.update_self] at hb
      rcases hkeys k hb with hmine | hfree
      · exact h.exclusive hne ha hmine
      · exact hfree a hai ha
    · rw [Function.update_of_ne hbi] at hb
      exact h.exclusive hne ha hb

theorem Sane.step [DecidableEq ι] (h : Sane accesses c) (hstep : Step c c') : Sane accesses c' := by
  cases hstep with
  | @take i k hwants hfree =>
    refine ⟨fun hne ha => h.exclusive_update (fun key hkey => ?_) hne ha, fun a => ?_⟩
    · rcases Set.mem_insert_iff.1 hkey with rfl | hkey
      · exact .inr hfree
      · exact .inl hkey
    · by_cases hai : a = i
      · subst hai
        obtain ⟨access, rest, hnext, hk⟩ := hwants
        rcases h.underway a with ⟨past, hpast, hheld⟩ | ⟨hdone, _⟩
        · refine .inl ⟨past, hpast, fun key hkey => ?_⟩
          simp only [Function.update_self] at hkey
          rcases Set.mem_insert_iff.1 hkey with rfl | hkey
          · exact .inr ⟨access, rest, hnext, hk⟩
          · exact hheld key hkey
        · rw [hdone] at hnext
          cases hnext
      · simp only [Function.update_of_ne hai]
        exact h.underway a
  | @advance i access rest hnext hfree =>
    refine ⟨h.exclusive, fun a => ?_⟩
    by_cases hai : a = i
    · subst hai
      simp only [Function.update_self]
      rcases h.underway a with ⟨past, hpast, hheld⟩ | ⟨hdone, _⟩
      · refine .inl ⟨past ++ [access], ?_, fun key hkey => ?_⟩
        · rw [List.append_assoc, List.singleton_append, ← hnext]
          exact hpast
        · rcases hheld key hkey with ⟨earlier, hmem, hin⟩ | ⟨current, rest', hcurrent, hin⟩
          · exact .inl ⟨earlier, List.mem_append_left _ hmem, hin⟩
          · rw [hnext] at hcurrent
            obtain ⟨rfl, _⟩ := List.cons.inj hcurrent
            exact .inl ⟨access, List.mem_append_right _ (List.mem_singleton.2 rfl), hin⟩
      · rw [hdone] at hnext
        cases hnext
    · simp only [Function.update_of_ne hai]
      exact h.underway a
  | @close i =>
    refine ⟨fun hne ha => h.exclusive_update (fun key hkey => absurd hkey (Set.notMem_empty key)) hne ha,
      fun a => ?_⟩
    by_cases hai : a = i
    · subst hai
      exact .inr ⟨by simp, by simp⟩
    · simp only [Function.update_of_ne hai]
      exact h.underway a

theorem sane_of_reachable [DecidableEq ι] (h : Reachable accesses c) : Sane accesses c := by
  induction h with
  | refl => exact sane_start accesses
  | tail _ hstep ih => exact ih.step hstep

/-- A key a transaction holds or wants is one of its accesses'. -/
theorem Sane.mem_accesses (h : Sane accesses c) (hk : k ∈ c.held i ∨ c.Wants i k) :
    ∃ access ∈ accesses i, k ∈ access := by
  rcases h.underway i with ⟨past, hpast, hheld⟩ | ⟨hdone, hnone⟩
  · have hcurrent : ∀ {access rest}, c.todo i = access :: rest → access ∈ accesses i := by
      intro access rest hnext
      rw [← hpast, hnext]
      simp
    rcases hk with hk | ⟨access, rest, hnext, hk⟩
    · rcases hheld k hk with ⟨access, hmem, hin⟩ | ⟨access, rest, hnext, hin⟩
      · exact ⟨access, hpast ▸ List.mem_append_left _ hmem, hin⟩
      · exact ⟨access, hcurrent hnext, hin⟩
    · exact ⟨access, hcurrent hnext, hk⟩
  · rcases hk with hk | ⟨access, rest, hnext, _⟩
    · rw [hnone] at hk
      cases hk
    · rw [hdone] at hnext
      cases hnext

/-! ## Ascending transactions -/

/-- The transaction comes to the shared keys in ascending order, one per access. -/
structure Ascending [LE κ] (shared : κ → Prop) (accesses : List (Set κ)) : Prop where
  single : ∀ access ∈ accesses, ∀ k ∈ access, ∀ k' ∈ access, shared k → shared k' → k = k'
  ordered : accesses.Pairwise fun a b => ∀ k ∈ a, ∀ k' ∈ b, shared k → shared k' → k ≤ k'

/-- It may end early. -/
theorem Ascending.of_initial [LE κ] {shared : κ → Prop} {first accesses : List (Set κ)}
    (h : Ascending shared accesses) (hinitial : first <+: accesses) : Ascending shared first where
  single access haccess := h.single access (hinitial.subset haccess)
  ordered := h.ordered.sublist hinitial.sublist

section

variable [LinearOrder κ] {shared : κ → Prop}

/-- A transaction holds nothing above what it wants. -/
theorem Sane.held_le (h : Sane accesses c) (hasc : Ascending shared (accesses i))
    (hk : k ∈ c.held i) (hwants : c.Wants i k') (hshared : shared k) (hshared' : shared k') :
    k ≤ k' := by
  obtain ⟨access, rest, hnext, hk'⟩ := hwants
  rcases h.underway i with ⟨past, hpast, hheld⟩ | ⟨_, hnone⟩
  · have hordered := hasc.ordered
    rw [← hpast, hnext] at hordered
    rcases hheld k hk with ⟨earlier, hmem, hin⟩ | ⟨current, rest', hcurrent, hin⟩
    · exact (List.pairwise_append.1 hordered).2.2 earlier hmem access List.mem_cons_self k hin k' hk'
        hshared hshared'
    · rw [hnext] at hcurrent
      obtain ⟨rfl, _⟩ := List.cons.inj hcurrent
      have hmem : access ∈ accesses i := by
        rw [← hpast, hnext]
        simp
      exact le_of_eq (hasc.single access hmem k hin k' hk' hshared hshared')
  · rw [hnone] at hk
    cases hk

/-- The key a transaction waits for lies below the one its holder waits for. -/
theorem Sane.waits_lt {m : ι} (h : Sane accesses c) (hasc : ∀ i, Ascending shared (accesses i))
    (hprivate : ∀ {i j k}, i ≠ j → (∃ access ∈ accesses i, k ∈ access) →
      (∃ access ∈ accesses j, k ∈ access) → shared k)
    (hij : c.WaitsAt i k j) (hjm : c.WaitsAt j k' m) : k < k' := by
  have hshared : shared k := hprivate hij.2.2 (h.mem_accesses (.inl hij.2.1))
    (h.mem_accesses (.inr hij.1))
  have hshared' : shared k' := hprivate hjm.2.2 (h.mem_accesses (.inl hjm.2.1))
    (h.mem_accesses (.inr hjm.1))
  have hle := h.held_le (hasc j) hij.2.1 hjm.1 hshared hshared'
  refine lt_of_le_of_ne hle ?_
  rintro rfl
  exact h.exclusive hjm.2.2 hjm.2.1 hij.2.1

/-- Transactions that share only keys they take in ascending order never deadlock. -/
theorem waits_acyclic [DecidableEq ι] (hasc : ∀ i, Ascending shared (accesses i))
    (hprivate : ∀ {i j k}, i ≠ j → (∃ access ∈ accesses i, k ∈ access) →
      (∃ access ∈ accesses j, k ∈ access) → shared k)
    (hreach : Reachable accesses c) (i : ι) : ¬Relation.TransGen c.WaitsFor i i := by
  have h := sane_of_reachable hreach
  -- the first key of a chain lies below every key its last transaction waits for
  have hchain : ∀ {j}, Relation.TransGen c.WaitsFor i j → ∃ k m, c.WaitsAt i k m ∧
      ∀ k' m', c.WaitsAt j k' m' → k < k' := by
    intro j hchain
    induction hchain with
    | single hij =>
      obtain ⟨k, hk⟩ := hij
      exact ⟨k, _, hk, fun k' m' hnext => h.waits_lt hasc hprivate hk hnext⟩
    | tail _ hlast ih =>
      obtain ⟨k, m, hk, hbelow⟩ := ih
      obtain ⟨last, hlast⟩ := hlast
      exact ⟨k, m, hk, fun k' m' hnext =>
        (hbelow last _ hlast).trans (h.waits_lt hasc hprivate hlast hnext)⟩
  intro hcycle
  obtain ⟨k, m, hk, hbelow⟩ := hchain hcycle
  exact lt_irrefl k (hbelow k m hk)

end

end Claims

end Relational
