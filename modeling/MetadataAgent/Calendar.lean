import MetadataAgent.Time
import Mathlib.Data.Int.LeastGreatest
import Mathlib.Tactic.IntervalCases

/-! # The proleptic Gregorian calendar

`civilDate` counts in years that start on the first of March, so that the leap day comes last. Such
a year and the day in it determine the day number, and the other way round. -/
namespace MetadataAgent
set_option autoImplicit false

def IsLeap (year : ℤ) : Prop := year % 4 = 0 ∧ (year % 100 ≠ 0 ∨ year % 400 = 0)

instance decidableIsLeap (year : ℤ) : Decidable (IsLeap year) :=
  inferInstanceAs (Decidable (_ ∧ _))

def monthLength (year month : ℤ) : ℤ :=
  if month = 2 then if IsLeap year then 29 else 28
  else if month = 4 ∨ month = 6 ∨ month = 9 ∨ month = 11 then 30
  else 31

def daysBeforeMonth (year month : ℤ) : ℤ :=
  ((List.range (month - 1).toNat).map fun m : ℕ => monthLength year (m + 1)).sum

/-- The days from the first of January of the year 1. -/
def daysBeforeYear (year : ℤ) : ℤ :=
  365 * (year - 1) + (year - 1) / 4 - (year - 1) / 100 + (year - 1) / 400

/-- The day number of a date, counted from the epoch. -/
def daysFromCivil (year month day : ℤ) : ℤ :=
  daysBeforeYear year + daysBeforeMonth year month + (day - 1) - daysBeforeYear 1970

structure ValidDate (year month day : ℤ) : Prop where
  month_pos : 1 ≤ month
  month_le : month ≤ 12
  day_pos : 1 ≤ day
  day_le : day ≤ monthLength year month

/-! ## Years from March on -/

/-- The days from the first of March of the year 0. -/
def marchStart (year : ℤ) : ℤ := 365 * year + year / 4 - year / 100 + year / 400

/-- The days of the year that starts in March of `year`, from 0. -/
structure MarchDay (year dayOfYear : ℤ) : Prop where
  nonneg : 0 ≤ dayOfYear
  le_last : dayOfYear < 365 ∨ dayOfYear = 365 ∧ IsLeap (year + 1)

theorem exists_marchDay (z : ℤ) :
    ∃ year dayOfYear, MarchDay year dayOfYear ∧ z = marchStart year + dayOfYear := by
  have hbounded : ∀ y, marchStart y ≤ z → y ≤ max z 0 := by
    intro y hy
    unfold marchStart at hy
    omega
  have hsome : marchStart (min z 0 - 1) ≤ z := by
    unfold marchStart
    omega
  obtain ⟨year, hstart, hgreatest⟩ :=
    Int.exists_greatest_of_bdd (P := fun y => marchStart y ≤ z) ⟨_, hbounded⟩ ⟨_, hsome⟩
  have hnext : z < marchStart (year + 1) := by
    by_contra hle
    have := hgreatest (year + 1) (not_lt.mp hle)
    omega
  refine ⟨year, z - marchStart year, ⟨by omega, ?_⟩, by omega⟩
  unfold marchStart at *
  unfold IsLeap
  omega

/-- The division that finds the year of an era: `c` centuries, then `q` times four years, then
`r` years. -/
theorem yearOfEra_eq {c q r dayOfYear dayOfEra : ℤ} (hc : 0 ≤ c) (hc' : c ≤ 3) (hq : 0 ≤ q)
    (hq' : q ≤ 24) (hr : 0 ≤ r) (hr' : r ≤ 3) (hday : 0 ≤ dayOfYear)
    (hlast : dayOfYear < 365 ∨ dayOfYear = 365 ∧ r = 3 ∧ (q < 24 ∨ c = 3))
    (hera : dayOfEra = 36524 * c + 1461 * q + 365 * r + dayOfYear) :
    (dayOfEra - dayOfEra / 1460 + dayOfEra / 36524 - dayOfEra / 146096) / 365 =
      100 * c + 4 * q + r := by
  have hcenturies : dayOfEra / 36524 - dayOfEra / 146096 = c := by
    obtain ⟨x, hx⟩ : ∃ x, x = 1461 * q + 365 * r + dayOfYear := ⟨_, rfl⟩
    have hbound : 0 ≤ x ∧ x < 36524 ∨ x = 36524 ∧ c = 3 := by omega
    have hsum : dayOfEra = 36524 * c + x := by omega
    omega
  have hfourYears : ∃ e, dayOfEra / 1460 = 25 * c + q + e ∧
      (e = 0 ∧ dayOfYear < 365 ∨ e = 1 ∧ 0 < dayOfYear) := by
    obtain ⟨x, hx⟩ : ∃ x, x = 24 * c + q + 365 * r + dayOfYear := ⟨_, rfl⟩
    have hsum : dayOfEra = 1460 * (25 * c + q) + x := by omega
    by_cases hsmall : x < 1460
    · exact ⟨0, by omega, Or.inl ⟨rfl, by omega⟩⟩
    · exact ⟨1, by omega, Or.inr ⟨rfl, by omega⟩⟩
  obtain ⟨e, hquotient, hcases⟩ := hfourYears
  rw [hquotient]
  omega

/-- The month, counted from March. -/
def marchMonth (dayOfYear : ℤ) : ℤ := (5 * dayOfYear + 2) / 153

/-- The date of a day in a year that starts in March. -/
def marchDate (year dayOfYear : ℤ) : ℤ × ℤ × ℤ :=
  (year + (if marchMonth dayOfYear < 10 then 0 else 1),
    if marchMonth dayOfYear < 10 then marchMonth dayOfYear + 3 else marchMonth dayOfYear - 9,
    dayOfYear - (153 * marchMonth dayOfYear + 2) / 5 + 1)

theorem civilDate_marchDay {year dayOfYear : ℤ} (h : MarchDay year dayOfYear) :
    civilDate (marchStart year + dayOfYear - 719468) = marchDate year dayOfYear := by
  have hnonneg := h.nonneg
  have hlast := h.le_last
  obtain ⟨era, c, q, r, hyear, hc, hc', hq, hq', hr, hr'⟩ : ∃ era c q r : ℤ,
      year = 400 * era + 100 * c + 4 * q + r ∧ 0 ≤ c ∧ c ≤ 3 ∧ 0 ≤ q ∧ q ≤ 24 ∧ 0 ≤ r ∧ r ≤ 3 :=
    ⟨year / 400, year % 400 / 100, year % 100 / 4, year % 4, by omega, by omega, by omega, by omega,
      by omega, by omega, by omega⟩
  have hlast' : dayOfYear < 365 ∨ dayOfYear = 365 ∧ r = 3 ∧ (q < 24 ∨ c = 3) := by
    unfold IsLeap at hlast
    omega
  obtain ⟨dayOfEra, hera⟩ : ∃ d, d = 36524 * c + 1461 * q + 365 * r + dayOfYear := ⟨_, rfl⟩
  have hstart : marchStart year = 146097 * era + (36524 * c + 1461 * q + 365 * r) := by
    unfold marchStart
    omega
  have hdays : marchStart year + dayOfYear - 719468 + 719468 = 146097 * era + dayOfEra := by omega
  have hbound : 0 ≤ dayOfEra ∧ dayOfEra < 146097 := by omega
  have hdiv : (146097 * era + dayOfEra) / 146097 = era := by omega
  have hmod : (146097 * era + dayOfEra) % 146097 = dayOfEra := by omega
  have hrest : dayOfEra - (365 * (100 * c + 4 * q + r) + (100 * c + 4 * q + r) / 4 -
      (100 * c + 4 * q + r) / 100) = dayOfYear := by omega
  have hmonth : 0 ≤ marchMonth dayOfYear ∧ marchMonth dayOfYear ≤ 11 := by
    unfold marchMonth
    omega
  unfold civilDate marchDate
  simp only [hdays, hdiv, hmod, yearOfEra_eq hc hc' hq hq' hr hr' hnonneg hlast' hera, hrest]
  rw [← marchMonth]
  refine Prod.ext ?_ rfl
  by_cases hlate : marchMonth dayOfYear < 10
  · simp only [if_pos hlate]
    rw [if_neg (by omega)]
    omega
  · simp only [if_neg hlate]
    rw [if_pos (by omega)]
    omega

theorem daysBeforeMonth_succ (year : ℤ) {month : ℤ} (hpos : 1 ≤ month) :
    daysBeforeMonth year (month + 1) = daysBeforeMonth year month + monthLength year month := by
  obtain ⟨m, rfl⟩ : ∃ m : ℕ, month = m + 1 := ⟨(month - 1).toNat, by omega⟩
  have hmonths : ((m : ℤ) + 1 + 1 - 1).toNat = m + 1 := by omega
  have hbefore : ((m : ℤ) + 1 - 1).toNat = m := by omega
  rw [daysBeforeMonth, daysBeforeMonth, hmonths, hbefore, List.range_succ, List.map_append,
    List.sum_append, List.map_singleton, List.sum_singleton]

/-- Five months from March on have 153 days. -/
theorem daysBeforeMonth_eq (year : ℤ) {month : ℤ} (hpos : 1 ≤ month) (hle : month ≤ 12) :
    daysBeforeMonth year month =
      if month ≤ 2 then 31 * (month - 1)
      else (153 * (month - 3) + 2) / 5 + (if IsLeap year then 60 else 59) := by
  induction month, hpos using Int.leInduction with
  | base => rfl
  | succ m hm ih =>
    have hm' : m ≤ 11 := by omega
    rw [daysBeforeMonth_succ year hm, ih (by omega), monthLength]
    by_cases hleap : IsLeap year
    · simp only [if_pos hleap]
      interval_cases m <;> rfl
    · simp only [if_neg hleap]
      interval_cases m <;> rfl

theorem daysBeforeYear_eq (year : ℤ) : daysBeforeYear year = marchStart (year - 1) := rfl

theorem marchStart_succ (year : ℤ) :
    marchStart (year + 1) = marchStart year + (if IsLeap (year + 1) then 366 else 365) := by
  unfold marchStart
  by_cases hleap : IsLeap (year + 1)
  · rw [if_pos hleap]
    unfold IsLeap at hleap
    omega
  · rw [if_neg hleap]
    unfold IsLeap at hleap
    omega

theorem daysFromCivil_marchDate {year dayOfYear : ℤ} (h : MarchDay year dayOfYear) :
    ValidDate (marchDate year dayOfYear).1 (marchDate year dayOfYear).2.1
        (marchDate year dayOfYear).2.2 ∧
      daysFromCivil (marchDate year dayOfYear).1 (marchDate year dayOfYear).2.1
        (marchDate year dayOfYear).2.2 = marchStart year + dayOfYear - 719468 := by
  have hnonneg := h.nonneg
  have hlast := h.le_last
  have hepoch : daysBeforeYear 1970 = 719162 := rfl
  obtain ⟨m, hm⟩ : ∃ m, m = marchMonth dayOfYear := ⟨_, rfl⟩
  have hbounds : 153 * m ≤ 5 * dayOfYear + 2 ∧ 5 * dayOfYear + 2 < 153 * m + 153 := by
    rw [hm]
    unfold marchMonth
    omega
  have hm0 : 0 ≤ m := by omega
  have hm11 : m ≤ 11 := by omega
  unfold marchDate
  rw [← hm]
  clear hm
  by_cases hlate : m < 10
  · simp only [if_pos hlate, add_zero]
    refine ⟨⟨by omega, by omega, by omega, ?_⟩, ?_⟩
    · unfold monthLength
      interval_cases m <;> simp <;> omega
    · have hleap := marchStart_succ (year - 1)
      rw [sub_add_cancel] at hleap
      unfold daysFromCivil
      rw [daysBeforeMonth_eq _ (by omega) (by omega), daysBeforeYear_eq, hepoch, if_neg (by omega),
        add_sub_cancel_right]
      by_cases h : IsLeap year
      · rw [if_pos h] at *
        omega
      · rw [if_neg h] at *
        omega
  · simp only [if_neg hlate]
    refine ⟨⟨by omega, by omega, by omega, ?_⟩, ?_⟩
    · unfold monthLength
      by_cases h : IsLeap (year + 1)
      · interval_cases m <;> simp [h] <;> omega
      · have hshort : dayOfYear < 365 := by tauto
        interval_cases m <;> simp [h] <;> omega
    · unfold daysFromCivil
      rw [daysBeforeMonth_eq _ (by omega) (by omega), daysBeforeYear_eq, hepoch, if_pos (by omega),
        add_sub_cancel_right]
      omega

/-- Every date is a day in some year that starts in March. -/
theorem exists_marchDate {year month day : ℤ} (h : ValidDate year month day) :
    ∃ marchYear dayOfYear, MarchDay marchYear dayOfYear ∧
      marchDate marchYear dayOfYear = (year, month, day) := by
  obtain ⟨hpos, hle, hday, hlength⟩ := h
  unfold monthLength at hlength
  by_cases hlate : month ≤ 2
  · have hmonth : marchMonth ((153 * (month + 9) + 2) / 5 + (day - 1)) = month + 9 := by
      unfold marchMonth
      interval_cases month
      · simp at hlength
        omega
      · by_cases hleap : IsLeap year <;> simp [hleap] at hlength <;> omega
    refine ⟨year - 1, (153 * (month + 9) + 2) / 5 + (day - 1), ⟨by omega, ?_⟩, ?_⟩
    · rw [sub_add_cancel]
      interval_cases month
      · simp at hlength
        omega
      · by_cases hleap : IsLeap year <;> simp [hleap] at hlength ⊢ <;> omega
    · unfold marchDate
      rw [hmonth, if_neg (by omega), if_neg (by omega)]
      refine Prod.ext (by simp) (Prod.ext ?_ ?_) <;> simp only <;> omega
  · have hmonth : marchMonth ((153 * (month - 3) + 2) / 5 + (day - 1)) = month - 3 := by
      unfold marchMonth
      interval_cases month <;> simp at hlength <;> omega
    refine ⟨year, (153 * (month - 3) + 2) / 5 + (day - 1), ⟨by omega, Or.inl ?_⟩, ?_⟩
    · interval_cases month <;> simp at hlength <;> omega
    · unfold marchDate
      rw [hmonth, if_pos (by omega), if_pos (by omega)]
      refine Prod.ext (by simp) (Prod.ext ?_ ?_) <;> simp only <;> omega

/-! ## Days and dates -/

theorem exists_civilDate_eq (days : ℤ) :
    ∃ year dayOfYear, MarchDay year dayOfYear ∧ days = marchStart year + dayOfYear - 719468 ∧
      civilDate days = marchDate year dayOfYear := by
  obtain ⟨year, dayOfYear, hday, hdays⟩ := exists_marchDay (days + 719468)
  have heq : days = marchStart year + dayOfYear - 719468 := by omega
  refine ⟨year, dayOfYear, hday, heq, ?_⟩
  rw [heq]
  exact civilDate_marchDay hday

theorem validDate_civilDate (days : ℤ) :
    ValidDate (civilDate days).1 (civilDate days).2.1 (civilDate days).2.2 := by
  obtain ⟨year, dayOfYear, hday, -, hdate⟩ := exists_civilDate_eq days
  rw [hdate]
  exact (daysFromCivil_marchDate hday).1

theorem daysFromCivil_civilDate (days : ℤ) :
    daysFromCivil (civilDate days).1 (civilDate days).2.1 (civilDate days).2.2 = days := by
  obtain ⟨year, dayOfYear, hday, hdays, hdate⟩ := exists_civilDate_eq days
  rw [hdate, hdays]
  exact (daysFromCivil_marchDate hday).2

theorem civilDate_daysFromCivil {year month day : ℤ} (h : ValidDate year month day) :
    civilDate (daysFromCivil year month day) = (year, month, day) := by
  obtain ⟨marchYear, dayOfYear, hday, hdate⟩ := exists_marchDate h
  have hdays := (daysFromCivil_marchDate hday).2
  rw [hdate] at hdays
  rw [hdays, civilDate_marchDay hday, hdate]

/-! ## Seconds and times -/

structure Tm.Valid (tm : Tm) : Prop where
  date : ValidDate tm.year tm.month tm.day
  hour_nonneg : 0 ≤ tm.hour
  hour_lt : tm.hour < 24
  minute_nonneg : 0 ≤ tm.minute
  minute_lt : tm.minute < 60
  second_nonneg : 0 ≤ tm.second
  second_lt : tm.second < 60

/-- The inverse of `gmtime`. -/
def timegm (tm : Tm) : ℤ :=
  daysFromCivil tm.year tm.month tm.day * 86400 + tm.hour * 3600 + tm.minute * 60 + tm.second

theorem valid_gmtime (seconds : ℤ) : (gmtime seconds).Valid where
  date := validDate_civilDate _
  hour_nonneg := by
    show 0 ≤ seconds % 86400 / 3600
    omega
  hour_lt := by
    show seconds % 86400 / 3600 < 24
    omega
  minute_nonneg := by
    show 0 ≤ seconds % 86400 / 60 % 60
    omega
  minute_lt := by
    show seconds % 86400 / 60 % 60 < 60
    omega
  second_nonneg := by
    show 0 ≤ seconds % 86400 % 60
    omega
  second_lt := by
    show seconds % 86400 % 60 < 60
    omega

theorem timegm_gmtime (seconds : ℤ) : timegm (gmtime seconds) = seconds := by
  unfold timegm gmtime
  rw [daysFromCivil_civilDate]
  show seconds / 86400 * 86400 + seconds % 86400 / 3600 * 3600 +
    seconds % 86400 / 60 % 60 * 60 + seconds % 86400 % 60 = seconds
  omega

theorem gmtime_timegm {tm : Tm} (h : tm.Valid) : gmtime (timegm tm) = tm := by
  obtain ⟨hdate, hhour, hhour', hminute, hminute', hsecond, hsecond'⟩ := h
  have hdays : timegm tm / 86400 = daysFromCivil tm.year tm.month tm.day := by
    unfold timegm
    omega
  have hrest : timegm tm % 86400 = tm.hour * 3600 + tm.minute * 60 + tm.second := by
    unfold timegm
    omega
  have hhours : (tm.hour * 3600 + tm.minute * 60 + tm.second) / 3600 = tm.hour := by omega
  have hminutes : (tm.hour * 3600 + tm.minute * 60 + tm.second) / 60 % 60 = tm.minute := by omega
  have hseconds : (tm.hour * 3600 + tm.minute * 60 + tm.second) % 60 = tm.second := by omega
  unfold gmtime
  simp only [hdays, hrest, civilDate_daysFromCivil hdate, hhours, hminutes, hseconds]

/-- The years of the seconds that a signed 64-bit count of nanoseconds holds have four digits. -/
theorem year_gmtime {seconds : ℤ} (hlow : -9223372037 ≤ seconds) (hhigh : seconds ≤ 9223372036) :
    1000 ≤ (gmtime seconds).year ∧ (gmtime seconds).year < 10000 := by
  show 1000 ≤ (civilDate (seconds / 86400)).1 ∧ (civilDate (seconds / 86400)).1 < 10000
  obtain ⟨year, dayOfYear, hday, hdays, hdate⟩ := exists_civilDate_eq (seconds / 86400)
  have hnonneg := hday.nonneg
  have hlast := hday.le_last
  rw [hdate]
  unfold marchDate
  unfold marchStart at hdays
  by_cases hlate : marchMonth dayOfYear < 10
  · rw [if_pos hlate]
    show 1000 ≤ year + 0 ∧ year + 0 < 10000
    omega
  · rw [if_neg hlate]
    show 1000 ≤ year + 1 ∧ year + 1 < 10000
    omega

end MetadataAgent
