import Mathlib.Algebra.BigOperators.Intervals
import Mathlib.Algebra.Order.BigOperators.Group.Finset
import Mathlib.Order.Interval.Finset.Nat
import Tableinator.Digits
import Tableinator.Durable.Terminal

/-! # Dump versions as calendar dates

The days of the proleptic Gregorian calendar, numbered in order from 0001-01-01, and the
eight-digit text of each.  `ordered_version` accepts exactly these texts, and comparing
them as strings is comparing the days. -/

namespace Tableinator.Durable

/-- A day of the calendar, with the years `datetime.date` has. -/
structure CalendarDate where
  year : Nat
  month : Nat
  day : Nat
  year_bounds : 1 ≤ year ∧ year ≤ 9999
  month_bounds : 1 ≤ month ∧ month ≤ 12
  day_bounds : 1 ≤ day ∧ day ≤ daysInMonth year month
  deriving DecidableEq

/-! ## The number of a day -/

def daysInYear (year : Nat) : Nat := if isLeapYear year then 366 else 365

def daysBeforeYear (year : Nat) : Nat := ∑ y ∈ Finset.Ico 1 year, daysInYear y

def daysBeforeMonth (year month : Nat) : Nat := ∑ m ∈ Finset.Ico 1 month, daysInMonth year m

/-- `date.toordinal`: 0001-01-01 is day 1. -/
def CalendarDate.ordinal (d : CalendarDate) : Nat :=
  daysBeforeYear d.year + daysBeforeMonth d.year d.month + d.day

theorem daysInMonth_le (year month : Nat) : daysInMonth year month ≤ 31 := by
  unfold daysInMonth
  split
  · split <;> omega
  · split <;> omega

/-- A year is its twelve months. -/
theorem daysBeforeMonth_thirteen (year : Nat) : daysBeforeMonth year 13 = daysInYear year := by
  have hmonths : Finset.Ico 1 13 = {1, 2, 3, 4, 5, 6, 7, 8, 9, 10, 11, 12} := by decide
  simp only [daysBeforeMonth, hmonths, daysInYear, daysInMonth]
  cases isLeapYear year <;> rfl

theorem daysBeforeYear_add {y z : Nat} (hy : 1 ≤ y) (hlt : y < z) :
    daysBeforeYear y + daysInYear y ≤ daysBeforeYear z := by
  rw [daysBeforeYear, ← Finset.sum_Ico_succ_top hy]
  apply Finset.sum_le_sum_of_subset
  exact Finset.Ico_subset_Ico_right hlt

theorem daysBeforeMonth_add {year m n : Nat} (hm : 1 ≤ m) (hlt : m < n) :
    daysBeforeMonth year m + daysInMonth year m ≤ daysBeforeMonth year n := by
  rw [daysBeforeMonth, ← Finset.sum_Ico_succ_top hm]
  apply Finset.sum_le_sum_of_subset
  exact Finset.Ico_subset_Ico_right hlt

namespace CalendarDate

/-- A day lies within its year. -/
theorem ordinal_le (d : CalendarDate) :
    d.ordinal ≤ daysBeforeYear d.year + daysInYear d.year := by
  have hmonth : d.month < 13 := by
    have := d.month_bounds
    omega
  have hrest := @daysBeforeMonth_add d.year _ _ d.month_bounds.1 hmonth
  have hday := d.day_bounds
  rw [daysBeforeMonth_thirteen] at hrest
  unfold ordinal
  omega

/-- An earlier day, field by field. -/
def Earlier (d e : CalendarDate) : Prop :=
  d.year < e.year ∨ d.year = e.year ∧ (d.month < e.month ∨ d.month = e.month ∧ d.day < e.day)

theorem ordinal_lt_of_earlier {d e : CalendarDate} (h : d.Earlier e) : d.ordinal < e.ordinal := by
  have he := e.day_bounds
  have hd := d.day_bounds
  rcases h with hyear | ⟨hyear, hmonth | ⟨hmonth, hday⟩⟩
  · have hbefore := daysBeforeYear_add d.year_bounds.1 hyear
    have hwithin := d.ordinal_le
    rw [ordinal.eq_def e]
    omega
  · have hbefore := @daysBeforeMonth_add d.year _ _ d.month_bounds.1 hmonth
    unfold ordinal
    rw [← hyear]
    omega
  · unfold ordinal
    rw [← hyear, ← hmonth]
    omega

theorem eq_or_earlier (d e : CalendarDate) : d = e ∨ d.Earlier e ∨ e.Earlier d := by
  obtain ⟨y, m, a, _, _, _⟩ := d
  obtain ⟨y', m', a', _, _, _⟩ := e
  simp only [Earlier, mk.injEq]
  omega

/-- The days are numbered in the order of their fields. -/
theorem ordinal_lt_iff {d e : CalendarDate} : d.ordinal < e.ordinal ↔ d.Earlier e := by
  constructor
  · intro h
    rcases eq_or_earlier d e with heq | hlt | hgt
    · rw [heq] at h
      omega
    · exact hlt
    · have := ordinal_lt_of_earlier hgt
      omega
  · exact ordinal_lt_of_earlier

/-! ## The text of a day -/

/-- The digits `YYYYMMDD`. -/
def digits (d : CalendarDate) : List Char :=
  paddedDigits 4 d.year ++ paddedDigits 2 d.month ++ paddedDigits 2 d.day

def compact (d : CalendarDate) : String := String.ofList d.digits

theorem isDigit_digits {d : CalendarDate} {c : Char} (h : c ∈ d.digits) : isDigit c = true := by
  simp only [digits, List.mem_append] at h
  rcases h with (h | h) | h
  all_goals exact isDigit_paddedDigits h

@[simp] theorem length_digits (d : CalendarDate) : d.digits.length = 8 := by simp [digits]

theorem day_le (d : CalendarDate) : d.day ≤ 31 := d.day_bounds.2.trans (daysInMonth_le _ _)

theorem natOfDigits_digits (d : CalendarDate) :
    natOfDigits d.digits = d.year * 10000 + d.month * 100 + d.day := by
  have hyear : d.year < 10 ^ 4 := by
    have := d.year_bounds
    omega
  have hmonth : d.month < 10 ^ 2 := by
    have := d.month_bounds
    omega
  have hday : d.day < 10 ^ 2 := by
    have := d.day_le
    omega
  rw [digits, natOfDigits_append, natOfDigits_append, natOfDigits_paddedDigits hyear,
    natOfDigits_paddedDigits hmonth, natOfDigits_paddedDigits hday]
  simp only [length_paddedDigits]
  omega

/-- String comparison of two texts is the order of their days. -/
theorem compact_lt_iff (d e : CalendarDate) : d.compact < e.compact ↔ d.ordinal < e.ordinal := by
  have hd := d.day_le
  have he := e.day_le
  have hd' := d.month_bounds
  have he' := e.month_bounds
  rw [ordinal_lt_iff, compact, compact, String.lt_iff_toList_lt, String.toList_ofList,
    String.toList_ofList, lt_iff_natOfDigits_lt (fun _ => isDigit_digits)
      (fun _ => isDigit_digits) (by simp), natOfDigits_digits, natOfDigits_digits, Earlier]
  omega

theorem compact_injective {d e : CalendarDate} (h : d.compact = e.compact) : d = e := by
  rcases eq_or_earlier d e with heq | hlt | hgt
  · exact heq
  · have hlt' := (compact_lt_iff d e).2 (ordinal_lt_of_earlier hlt)
    rw [h] at hlt'
    exact absurd hlt' (lt_irrefl _)
  · have hgt' := (compact_lt_iff e d).2 (ordinal_lt_of_earlier hgt)
    rw [h] at hgt'
    exact absurd hgt' (lt_irrefl _)

end CalendarDate

/-! ## What `ordered_version` accepts -/

theorem isVersionText_compact (d : CalendarDate) : isVersionText d.compact = true := by
  simp only [isVersionText, CalendarDate.compact, String.toList_ofList,
    CalendarDate.length_digits, List.all_eq_true, Bool.and_eq_true, beq_self_eq_true, true_and]
  intro c hc
  exact CalendarDate.isDigit_digits hc

-- The slices `[:4]`, `[4:6]` and `[6:]` of the text are its three fields.
theorem CalendarDate.slices (d : CalendarDate) :
    d.digits.take 4 = paddedDigits 4 d.year ∧
      (d.digits.drop 4).take 2 = paddedDigits 2 d.month ∧
      d.digits.drop 6 = paddedDigits 2 d.day := by
  have hfront : (paddedDigits 4 d.year ++ paddedDigits 2 d.month).length = 6 := by simp
  have hyear : (paddedDigits 4 d.year).length = 4 := by simp
  have hmonth : (paddedDigits 2 d.month).length = 2 := by simp
  refine ⟨?_, ?_, ?_⟩
  · rw [digits, List.append_assoc, List.take_left' hyear]
  · rw [digits, List.append_assoc, List.drop_left' hyear, List.take_left' hmonth]
  · rw [digits, List.drop_left' hfront]

theorem namesDate_compact (d : CalendarDate) : namesDate d.compact = true := by
  have hday := d.day_le
  have hyears := d.year_bounds
  have hmonths := d.month_bounds
  have hdays := d.day_bounds
  obtain ⟨hyear, hmonth, hrest⟩ := d.slices
  rw [namesDate, CalendarDate.compact, String.toList_ofList, hyear, hmonth, hrest,
    natOfDigits_paddedDigits (by omega), natOfDigits_paddedDigits (by omega),
    natOfDigits_paddedDigits (by omega)]
  simp [dateExists, hyears, hmonths, hdays]

/-- A text that passes both checks is the text of a day. -/
theorem exists_date {version : String} (htext : isVersionText version = true)
    (hdate : namesDate version = true) : ∃ d : CalendarDate, d.compact = version := by
  simp only [isVersionText, Bool.and_eq_true, beq_iff_eq, List.all_eq_true] at htext
  obtain ⟨hlength, hdigits⟩ := htext
  simp only [namesDate, dateExists, Bool.and_eq_true, decide_eq_true_eq] at hdate
  obtain ⟨⟨⟨⟨hyear, hmonth⟩, hmonth'⟩, hday⟩, hday'⟩ := hdate
  have hfour : (version.toList.take 4).length = 4 := by simp [hlength]
  have htwo : ((version.toList.drop 4).take 2).length = 2 := by simp [hlength]
  have hlast : (version.toList.drop 6).length = 2 := by simp [hlength]
  have hyears : ∀ c ∈ version.toList.take 4, isDigit c = true := fun c hc =>
    hdigits c (List.mem_of_mem_take hc)
  have hmonths : ∀ c ∈ (version.toList.drop 4).take 2, isDigit c = true := fun c hc =>
    hdigits c (List.mem_of_mem_drop (List.mem_of_mem_take hc))
  have hdays : ∀ c ∈ version.toList.drop 6, isDigit c = true := fun c hc =>
    hdigits c (List.mem_of_mem_drop hc)
  have hbound := natOfDigits_lt hyears
  rw [hfour] at hbound
  refine ⟨⟨natOfDigits (version.toList.take 4), natOfDigits ((version.toList.drop 4).take 2),
    natOfDigits (version.toList.drop 6), ⟨hyear, by omega⟩, ⟨hmonth, hmonth'⟩, ⟨hday, hday'⟩⟩, ?_⟩
  -- Each field spelled again at its width is the slice it was read from.
  have hyearText := paddedDigits_natOfDigits hyears
  have hmonthText := paddedDigits_natOfDigits hmonths
  have hdayText := paddedDigits_natOfDigits hdays
  rw [hfour] at hyearText
  rw [htwo] at hmonthText
  rw [hlast] at hdayText
  have hslices : version.toList.take 4 ++ (version.toList.drop 4).take 2 ++ version.toList.drop 6
      = version.toList := by
    rw [List.append_assoc, ← List.drop_drop (i := 2) (j := 4), List.take_append_drop,
      List.take_append_drop]
  rw [CalendarDate.compact, CalendarDate.digits, hyearText, hmonthText, hdayText, hslices,
    String.ofList_toList]

theorem orderedVersion_eq_compact {value version : String} :
    orderedVersion value = .ok version ↔
      strip value = version ∧ ∃ d : CalendarDate, d.compact = version := by
  rw [orderedVersion_eq_ok]
  constructor
  · intro h
    exact ⟨h.1, exists_date h.2.1 h.2.2⟩
  · intro h
    obtain ⟨hstrip, d, rfl⟩ := h
    exact ⟨hstrip, isVersionText_compact d, namesDate_compact d⟩

/-- The accepted versions are the calendar's days, each under one text of eight digits, and
    every comparison of two of them is the comparison of their days. -/
theorem versions_are_calendar_dates (text : Json → String) :
    (∀ value version, orderedVersion (textOrEmpty text value) = .ok version ↔
      strip (textOrEmpty text value) = version ∧ ∃! d : CalendarDate, d.compact = version) ∧
    ∀ d e : CalendarDate,
      (d.compact < e.compact ↔ d.ordinal < e.ordinal) ∧
        (d.compact = e.compact ↔ d.ordinal = e.ordinal) := by
  refine ⟨?_, ?_⟩
  · intro value version
    rw [orderedVersion_eq_compact]
    constructor
    · intro h
      obtain ⟨hstrip, d, hd⟩ := h
      refine ⟨hstrip, d, hd, ?_⟩
      intro e he
      exact CalendarDate.compact_injective (he.trans hd.symm)
    · intro h
      obtain ⟨hstrip, d, hd, -⟩ := h
      exact ⟨hstrip, d, hd⟩
  · intro d e
    refine ⟨CalendarDate.compact_lt_iff d e, ?_⟩
    constructor
    · intro h
      rw [CalendarDate.compact_injective h]
    · intro h
      rcases d.eq_or_earlier e with heq | hlt | hgt
      · rw [heq]
      · have := CalendarDate.ordinal_lt_of_earlier hlt
        omega
      · have := CalendarDate.ordinal_lt_of_earlier hgt
        omega

end Tableinator.Durable
