import Mathlib.Logic.Relation

/-! # Transaction bodies

A transaction body is a fallible function on the tables: `Except.error` rolls it
back.  The inversion rules for `do` blocks over `Except`, and the rule that
carries an invariant through a loop that may raise. -/

namespace Relational

universe u v w

variable {ε : Type u} {α β σ : Type v}

theorem bind_eq_ok {x : Except ε α} {f : α → Except ε β} {b : β} :
    (x >>= f) = .ok b ↔ ∃ a, x = .ok a ∧ f a = .ok b := by
  cases x with
  | error e => simp [bind, Except.bind]
  | ok a => simp [bind, Except.bind]

theorem map_eq_ok {x : Except ε α} {f : α → β} {b : β} :
    x.map f = .ok b ↔ ∃ a, x = .ok a ∧ f a = b := by
  cases x with
  | error e => simp [Except.map]
  | ok a => simp [Except.map]

theorem bind_eq_error {x : Except ε α} {f : α → Except ε β} {e : ε} :
    (x >>= f) = .error e ↔ x = .error e ∨ ∃ a, x = .ok a ∧ f a = .error e := by
  cases x with
  | error e' => simp [bind, Except.bind]
  | ok a => simp [bind, Except.bind]

theorem map_eq_error {x : Except ε α} {f : α → β} {e : ε} :
    x.map f = .error e ↔ x = .error e := by
  cases x with
  | error e' => simp [Except.map]
  | ok a => simp [Except.map]

/-- A loop that raises raised in one of its iterations. -/
theorem foldlM_eq_error {f : σ → α → Except ε σ} {e : ε} :
    ∀ {xs : List α} {s : σ}, xs.foldlM f s = .error e → ∃ s a, f s a = .error e
  | [], s, h => by
    simp [pure, Except.pure] at h
  | a :: xs, s, h => by
    rw [List.foldlM_cons, bind_eq_error] at h
    rcases h with hfirst | ⟨mid, _, hrest⟩
    · exact ⟨s, a, hfirst⟩
    · exact foldlM_eq_error hrest

/-- An invariant of every successful iteration holds after a successful loop. -/
theorem foldlM_invariant {f : σ → α → Except ε σ} (P : σ → Prop) :
    ∀ {xs : List α} {s s' : σ}, (∀ s a s', a ∈ xs → P s → f s a = .ok s' → P s') → P s →
      xs.foldlM f s = .ok s' → P s'
  | [], s, s', _, hs, h => by
    simp only [List.foldlM_nil, pure, Except.pure, Except.ok.injEq] at h
    exact h ▸ hs
  | a :: xs, s, s', step, hs, h => by
    rw [List.foldlM_cons, bind_eq_ok] at h
    obtain ⟨mid, hfirst, hrest⟩ := h
    have hmid := step s a mid List.mem_cons_self hs hfirst
    exact foldlM_invariant P (fun s b s' hb => step s b s' (List.mem_cons_of_mem _ hb)) hmid hrest

/-! ## Two runs of one body -/

/-- Both raise the same error, or both return, and what they return is related. -/
def SameOutcome (rel : α → β → Prop) : Except ε α → Except ε β → Prop
  | .ok a, .ok b => rel a b
  | .error e, .error e' => e = e'
  | _, _ => False

section

variable {α' β' : Type v} {rel : α → α' → Prop} {rel' : β → β' → Prop}
variable {x : Except ε α} {x' : Except ε α'}

theorem sameOutcome_bind {f : α → Except ε β} {f' : α' → Except ε β'} (hx : SameOutcome rel x x')
    (hf : ∀ a a', rel a a' → SameOutcome rel' (f a) (f' a')) :
    SameOutcome rel' (x >>= f) (x' >>= f') := by
  cases x with
  | error e =>
    cases x' with
    | error e' => exact hx
    | ok a' => exact hx.elim
  | ok a =>
    cases x' with
    | error e' => exact hx.elim
    | ok a' => exact hf a a' hx

/-- Two bodies that raise, where there is one error to raise. -/
theorem sameOutcome_of_error [Subsingleton ε] (hx : ¬x.isOk = true) (hx' : ¬x'.isOk = true) :
    SameOutcome rel x x' := by
  cases x with
  | ok a => exact (hx rfl).elim
  | error e =>
    cases x' with
    | ok a' => exact (hx' rfl).elim
    | error e' => exact Subsingleton.elim e e'

end

end Relational
