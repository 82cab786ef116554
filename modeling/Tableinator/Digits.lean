import Mathlib.Data.List.Lex
import Mathlib.Algebra.Order.Ring.Nat
import Mathlib.Tactic.Ring
import Tableinator.Text

/-! # Decimal texts of a fixed width

Texts of equally many ASCII digits are compared as strings exactly as the numbers they
spell, and every number below the width's bound is spelled by exactly one of them. -/

namespace Tableinator

/-! ## The number a text spells -/

theorem foldl_digits (cs : List Char) (n : Nat) :
    cs.foldl (fun n c => 10 * n + (c.toNat - 48)) n = n * 10 ^ cs.length + natOfDigits cs := by
  induction cs generalizing n with
  | nil => simp [natOfDigits]
  | cons c cs ih =>
    simp only [natOfDigits, List.foldl_cons, List.length_cons]
    rw [ih, ih (10 * 0 + (c.toNat - 48))]
    ring

theorem natOfDigits_append (cs ds : List Char) :
    natOfDigits (cs ++ ds) = natOfDigits cs * 10 ^ ds.length + natOfDigits ds := by
  rw [natOfDigits, List.foldl_append, foldl_digits]
  rfl

theorem natOfDigits_cons (c : Char) (cs : List Char) :
    natOfDigits (c :: cs) = (c.toNat - 48) * 10 ^ cs.length + natOfDigits cs := by
  rw [← List.singleton_append, natOfDigits_append]
  simp [natOfDigits]

theorem natOfDigits_lt {cs : List Char} (h : ∀ c ∈ cs, isDigit c = true) :
    natOfDigits cs < 10 ^ cs.length := by
  induction cs with
  | nil => simp [natOfDigits]
  | cons c cs ih =>
    have hrest := ih fun d hd => h d (List.mem_cons_of_mem c hd)
    have hc := h c List.mem_cons_self
    simp only [isDigit, Bool.and_eq_true, decide_eq_true_eq] at hc
    have hhead : (c.toNat - 48) * 10 ^ cs.length ≤ 9 * 10 ^ cs.length :=
      Nat.mul_le_mul_right _ (by omega)
    rw [natOfDigits_cons, List.length_cons, Nat.pow_succ]
    omega

/-! ## The order of the texts -/

-- Two first digits decide, whatever follows them.
theorem lead_lt {c d : Char} {cs ds : List Char} (hc : isDigit c = true) (hd : isDigit d = true)
    (hcs : ∀ c ∈ cs, isDigit c = true) (hlength : cs.length = ds.length) (hlt : c < d) :
    natOfDigits (c :: cs) < natOfDigits (d :: ds) := by
  have hrest := natOfDigits_lt hcs
  have hvalue : c.toNat < d.toNat := hlt
  simp only [isDigit, Bool.and_eq_true, decide_eq_true_eq] at hc hd
  have hstep : (c.toNat - 48 + 1) * 10 ^ ds.length ≤ (d.toNat - 48) * 10 ^ ds.length :=
    Nat.mul_le_mul_right _ (by omega)
  rw [Nat.add_mul, Nat.one_mul] at hstep
  rw [natOfDigits_cons, natOfDigits_cons, hlength]
  rw [hlength] at hrest
  omega

/-- String comparison of equally long digit texts is comparison of what they spell. -/
theorem lt_iff_natOfDigits_lt {cs ds : List Char} (hcs : ∀ c ∈ cs, isDigit c = true)
    (hds : ∀ d ∈ ds, isDigit d = true) (hlength : cs.length = ds.length) :
    cs < ds ↔ natOfDigits cs < natOfDigits ds := by
  induction cs generalizing ds with
  | nil =>
    cases ds with
    | nil => simp
    | cons d ds => simp at hlength
  | cons c cs ih =>
    cases ds with
    | nil => simp at hlength
    | cons d ds =>
      have hlengths : cs.length = ds.length := by simpa using hlength
      have hc := hcs c List.mem_cons_self
      have hd := hds d List.mem_cons_self
      have hcs' : ∀ c ∈ cs, isDigit c = true := fun e he => hcs e (List.mem_cons_of_mem c he)
      have hds' : ∀ d ∈ ds, isDigit d = true := fun e he => hds e (List.mem_cons_of_mem d he)
      rw [List.cons_lt_cons_iff]
      rcases lt_trichotomy c d with hlt | heq | hgt
      · have hnum := lead_lt hc hd hcs' hlengths hlt
        simp [hlt, hnum]
      · subst heq
        rw [natOfDigits_cons, natOfDigits_cons, hlengths, Nat.add_lt_add_iff_left]
        simpa using ih hcs' hds' hlengths
      · have hnum := lead_lt hd hc hds' hlengths.symm hgt
        simp [hgt.not_gt, hgt.ne', hnum.le]

theorem natOfDigits_injective {cs ds : List Char} (hcs : ∀ c ∈ cs, isDigit c = true)
    (hds : ∀ d ∈ ds, isDigit d = true) (hlength : cs.length = ds.length)
    (heq : natOfDigits cs = natOfDigits ds) : cs = ds := by
  apply le_antisymm
  · rw [← not_lt, lt_iff_natOfDigits_lt hds hcs hlength.symm]
    omega
  · rw [← not_lt, lt_iff_natOfDigits_lt hcs hds hlength]
    omega

/-! ## Spelling a number -/

/-- The decimal text of a number, padded or cut to `width` digits. -/
def paddedDigits : Nat → Nat → List Char
  | 0, _ => []
  | width + 1, n => paddedDigits width (n / 10) ++ [Char.ofNat (48 + n % 10)]

theorem toNat_digit {n : Nat} (h : n < 10) : (Char.ofNat (48 + n)).toNat = 48 + n := by
  have hvalid : (48 + n).isValidChar := by
    left
    omega
  rw [Char.ofNat, dif_pos hvalid]
  rfl

@[simp] theorem length_paddedDigits (width n : Nat) : (paddedDigits width n).length = width := by
  induction width generalizing n with
  | zero => rfl
  | succ width ih => simp [paddedDigits, ih]

theorem isDigit_paddedDigits {width n : Nat} {c : Char} (h : c ∈ paddedDigits width n) :
    isDigit c = true := by
  induction width generalizing n with
  | zero => simp [paddedDigits] at h
  | succ width ih =>
    rw [paddedDigits, List.mem_append, List.mem_singleton] at h
    cases h with
    | inl hfront => exact ih hfront
    | inr hlast =>
      have hvalue := toNat_digit (Nat.mod_lt n (by omega : 10 > 0))
      rw [hlast]
      simp only [isDigit, hvalue, Bool.and_eq_true, decide_eq_true_eq]
      omega

theorem natOfDigits_paddedDigits {width n : Nat} (h : n < 10 ^ width) :
    natOfDigits (paddedDigits width n) = n := by
  induction width generalizing n with
  | zero =>
    simp only [Nat.pow_zero] at h
    simp only [paddedDigits, natOfDigits, List.foldl_nil]
    omega
  | succ width ih =>
    have hfront : n / 10 < 10 ^ width := by
      rw [Nat.pow_succ] at h
      omega
    have hvalue := toNat_digit (Nat.mod_lt n (by omega : 10 > 0))
    rw [paddedDigits, natOfDigits_append, ih hfront, natOfDigits_cons, hvalue]
    simp only [List.length_singleton, List.length_nil, natOfDigits, List.foldl_nil]
    omega

/-- A digit text is the spelling of its own number. -/
theorem paddedDigits_natOfDigits {cs : List Char} (h : ∀ c ∈ cs, isDigit c = true) :
    paddedDigits cs.length (natOfDigits cs) = cs := by
  apply natOfDigits_injective (fun c hc => isDigit_paddedDigits hc) h (length_paddedDigits _ _)
  exact natOfDigits_paddedDigits (natOfDigits_lt h)

end Tableinator
