import MetadataAgent.Bytes

/-! # Time stamps

`time_point` counts nanoseconds from the epoch. `rfc3339::ToString` cuts it into whole seconds,
towards zero, and a rest; the seconds are broken down as `gmtime` does. -/
namespace MetadataAgent
set_option autoImplicit false

/-- `time_point`. -/
abbrev Timestamp := ℤ

/-- The fields of `std::tm` that `strftime` reads, months and days from 1. -/
structure Tm where
  year : ℤ
  month : ℤ
  day : ℤ
  hour : ℤ
  minute : ℤ
  second : ℤ

/-- The proleptic Gregorian date of a day number, counted from the epoch: eras of 400 years that
start on the first of March. -/
def civilDate (days : ℤ) : ℤ × ℤ × ℤ :=
  let z := days + 719468
  let era := z / 146097
  let dayOfEra := z % 146097
  let yearOfEra := (dayOfEra - dayOfEra / 1460 + dayOfEra / 36524 - dayOfEra / 146096) / 365
  let dayOfYear := dayOfEra - (365 * yearOfEra + yearOfEra / 4 - yearOfEra / 100)
  let marchMonth := (5 * dayOfYear + 2) / 153
  let day := dayOfYear - (153 * marchMonth + 2) / 5 + 1
  let month := if marchMonth < 10 then marchMonth + 3 else marchMonth - 9
  (yearOfEra + era * 400 + (if month ≤ 2 then 1 else 0), month, day)

def gmtime (seconds : ℤ) : Tm :=
  let date := civilDate (seconds / 86400)
  let rest := seconds % 86400
  ⟨date.1, date.2.1, date.2.2, rest / 3600, rest / 60 % 60, rest % 60⟩

def zeroFilled (width : ℕ) (n : ℤ) : Bytes := (decimal n).leftpad width 0x30

def Tm.format (tm : Tm) : Bytes :=
  decimal tm.year ++ lit "-" ++ zeroFilled 2 tm.month ++ lit "-" ++ zeroFilled 2 tm.day ++
    lit "T" ++ zeroFilled 2 tm.hour ++ lit ":" ++ zeroFilled 2 tm.minute ++ lit ":" ++
    zeroFilled 2 tm.second

/-- `time::rfc3339::ToString`. -/
def rfc3339ToString (t : Timestamp) : Bytes :=
  let seconds := t.tdiv 1000000000
  let nanoseconds := t - seconds * 1000000000
  (gmtime seconds).format ++ lit "." ++ zeroFilled 9 nanoseconds ++ lit "Z"

example : rfc3339ToString 1516304330000000042 = lit "2018-01-18T19:38:50.000000042Z" := by decide

end MetadataAgent
