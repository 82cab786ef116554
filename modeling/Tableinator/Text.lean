import Mathlib.Data.String.Basic
import Mathlib.Data.List.Basic

/-! # Python text operations

The string built-ins the loader applies to unvalidated text: `str.strip`,
`str.split` without a separator, and the ASCII digit class of its regular
expressions. -/

namespace Tableinator

/-- `str.isspace` for one character: the Unicode whitespace `str.strip` and
    `str.split` cut at. -/
def isSpace (c : Char) : Bool :=
  let n := c.toNat
  (9 ≤ n && n ≤ 13) || (28 ≤ n && n ≤ 32) || n == 0x85 || n == 0xa0 || n == 0x1680 ||
    (0x2000 ≤ n && n ≤ 0x200a) || n == 0x2028 || n == 0x2029 || n == 0x202f ||
    n == 0x205f || n == 0x3000

/-- `str.strip()` on a character list. -/
def stripChars (cs : List Char) : List Char :=
  ((cs.dropWhile isSpace).reverse.dropWhile isSpace).reverse

/-- `str.strip()`. -/
def strip (s : String) : String := String.ofList (stripChars s.toList)

/-- `str.split()`: the maximal runs of characters that are not whitespace. -/
def splitWords (s : String) : List String :=
  ((s.toList.splitOnP isSpace).filter (· ≠ [])).map String.ofList

/-- `[0-9]`, the digit class of the loader's patterns. -/
def isDigit (c : Char) : Bool := 48 ≤ c.toNat && c.toNat ≤ 57

/-- `int(text)` on a text of ASCII digits. -/
def natOfDigits (cs : List Char) : Nat :=
  cs.foldl (fun n c => 10 * n + (c.toNat - 48)) 0

theorem isSpace_of_isDigit {c : Char} (h : isDigit c = true) : isSpace c = false := by
  simp only [isDigit, Bool.and_eq_true, decide_eq_true_eq] at h
  simp only [isSpace, Bool.or_eq_false_iff, Bool.and_eq_false_iff, decide_eq_false_iff_not,
    beq_eq_false_iff_ne]
  omega

theorem dropWhile_isSpace_of_forall {cs : List Char} (h : ∀ c ∈ cs, isSpace c = false) :
    cs.dropWhile isSpace = cs := by
  cases cs with
  | nil => rfl
  | cons c cs => simp [h c]

/-- Text without whitespace is its own strip. -/
theorem stripChars_of_forall {cs : List Char} (h : ∀ c ∈ cs, isSpace c = false) :
    stripChars cs = cs := by
  have hreverse : ∀ c ∈ cs.reverse, isSpace c = false := by simpa using h
  rw [stripChars, dropWhile_isSpace_of_forall h, dropWhile_isSpace_of_forall hreverse,
    List.reverse_reverse]

theorem strip_of_forall {s : String} (h : ∀ c ∈ s.toList, isSpace c = false) : strip s = s := by
  rw [strip, stripChars_of_forall h, String.ofList_toList]

/-- Nothing is left to cut at the front of a prefix of stripped text. -/
theorem dropWhile_isSpace_prefixed {cs ds : List Char} (h : cs <+: ds.dropWhile isSpace) :
    cs.dropWhile isSpace = cs := by
  cases cs with
  | nil => rfl
  | cons c cs =>
    obtain ⟨rest, hrest⟩ := h
    have hhead := List.head?_dropWhile_not isSpace ds
    rw [← hrest] at hhead
    simp only [List.cons_append, List.head?_cons] at hhead
    rw [List.dropWhile_cons, if_neg]
    simpa using hhead

theorem stripChars_idem (cs : List Char) : stripChars (stripChars cs) = stripChars cs := by
  have hfront : (stripChars cs).dropWhile isSpace = stripChars cs := by
    apply @dropWhile_isSpace_prefixed _ cs
    rw [stripChars, ← List.reverse_suffix, List.reverse_reverse]
    exact List.dropWhile_suffix isSpace
  rw [stripChars, hfront, stripChars, List.reverse_reverse, dropWhile_isSpace_prefixed List.prefix_rfl]

theorem strip_idem (s : String) : strip (strip s) = strip s := by
  simp only [strip, String.toList_ofList, stripChars_idem]

-- A program that branches on stripped text is not unfolded through the text.
attribute [irreducible] strip

end Tableinator
