import Tableinator.Text

/-! # Dump versions

`ordered_version` of `durable_refresh.py`: the only texts that may advance the
extraction cursor are the producer's `YYYYMMDD` dump versions.  They are
compared as strings everywhere. -/

namespace Tableinator.Durable

/-- What a durable transaction can raise.  The last two are PostgreSQL's own
    answers to an insert that breaks a key of the job relation. -/
inductive DurableError where
  | valueError (message : String)
  | schemaUnavailable (message : String)
  | supersededJob (message : String)
  | uniqueViolation
  | foreignKeyViolation
  deriving DecidableEq, Repr

/-- `_VERSION_RE.fullmatch`. -/
def isVersionText (text : String) : Bool :=
  text.toList.length == 8 && text.toList.all isDigit

def isLeapYear (year : Nat) : Bool := year % 4 == 0 && (year % 100 != 0 || year % 400 == 0)

def daysInMonth (year month : Nat) : Nat :=
  if month == 2 then (if isLeapYear year then 29 else 28)
  else if month == 4 || month == 6 || month == 9 || month == 11 then 30
  else 31

/-- `date.fromisoformat` accepts the three fields. -/
def dateExists (year month day : Nat) : Bool :=
  1 ≤ year && 1 ≤ month && month ≤ 12 && 1 ≤ day && day ≤ daysInMonth year month

/-- The calendar check on the slices `[:4]`, `[4:6]` and `[6:]`. -/
def namesDate (text : String) : Bool :=
  dateExists (natOfDigits (text.toList.take 4)) (natOfDigits ((text.toList.drop 4).take 2))
    (natOfDigits (text.toList.drop 6))

/-- `ordered_version`, on the text `str(value or "")` of its argument. -/
def orderedVersion (value : String) : Except DurableError String :=
  let version := strip value
  if !isVersionText version then
    .error (.valueError "durable extraction_complete requires an eight-digit YYYYMMDD dump version")
  else if !namesDate version then
    .error (.valueError "durable extraction_complete has an invalid YYYYMMDD dump version")
  else .ok version

theorem orderedVersion_eq_ok {value version : String} :
    orderedVersion value = .ok version ↔
      strip value = version ∧ isVersionText version = true ∧ namesDate version = true := by
  unfold orderedVersion
  constructor
  · intro h
    simp only at h
    split at h
    · cases h
    · split at h
      · cases h
      · injection h with h
        subst h
        simp_all
  · rintro ⟨rfl, htext, hdate⟩
    simp [htext, hdate]

theorem strip_of_isVersionText {version : String} (h : isVersionText version = true) :
    strip version = version := by
  apply strip_of_forall
  intro c hc
  simp only [isVersionText, Bool.and_eq_true, List.all_eq_true] at h
  exact isSpace_of_isDigit (h.2 c hc)

/-- An accepted version is accepted again as it stands: the rows the loader
    wrote itself never fail a later reconciliation. -/
theorem orderedVersion_idem {value version : String} (h : orderedVersion value = .ok version) :
    orderedVersion version = .ok version := by
  obtain ⟨_, htext, hdate⟩ := orderedVersion_eq_ok.1 h
  exact orderedVersion_eq_ok.2 ⟨strip_of_isVersionText htext, htext, hdate⟩

example : orderedVersion " 20260131\n" = .ok "20260131" := by decide +kernel

example : (orderedVersion "20260231").isOk = false := by decide +kernel

end Tableinator.Durable
