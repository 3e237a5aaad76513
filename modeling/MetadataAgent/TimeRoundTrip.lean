import MetadataAgent.Rfc3339

/-! # Time stamps survive being written and read

A valid text is read as the instant that it denotes, and an instant that is not before the epoch is
written as the text with nine digits that denotes it. So a time stamp of the clock is read back from
its text. -/
namespace MetadataAgent
open Lib
set_option autoImplicit false

/-! ## The form of a text -/

/-- The letters of a form stand for digits, except for the `T` and the `Z` of the text itself. -/
def fitsByte (p c : UInt8) : Prop :=
  if (lit "YMDhmsn").contains p then isDigit c = true else c = p

theorem fitsByte_iff (p c : UInt8) :
    fitsByte p c ↔ p ∈ lit "YMDhmsn" ∧ isDigit c = true ∨ p ∉ lit "YMDhmsn" ∧ c = p := by
  unfold fitsByte
  by_cases hp : p ∈ lit "YMDhmsn"
  · rw [if_pos (List.contains_iff_mem.mpr hp)]
    simp [hp]
  · rw [if_neg (fun h => hp (List.contains_iff_mem.mp h))]
    simp [hp]

def HasForm (form s : Bytes) : Prop := List.Forall₂ fitsByte form s

theorem HasForm.append {form form' s s' : Bytes} (h : HasForm form s) (h' : HasForm form' s') :
    HasForm (form ++ form') (s ++ s') := List.rel_append h h'

theorem HasForm.literal {c : UInt8} (hc : c ∉ lit "YMDhmsn") : HasForm [c] [c] :=
  List.Forall₂.cons ((fitsByte_iff c c).mpr (Or.inr ⟨hc, rfl⟩)) List.Forall₂.nil

theorem HasForm.digits {p : UInt8} (hp : p ∈ lit "YMDhmsn") {ds : List ℕ} (hds : ∀ d ∈ ds, d < 10) :
    HasForm (List.replicate ds.length p) (ds.map digitChar) := by
  induction ds with
  | nil => exact List.Forall₂.nil
  | cons d ds ih =>
    have hdigit : fitsByte p (digitChar d) :=
      (fitsByte_iff p _).mpr (Or.inl ⟨hp, isDigit_digitChar d (hds d List.mem_cons_self)⟩)
    exact List.Forall₂.cons hdigit (ih fun e he => hds e (List.mem_cons_of_mem d he))

theorem HasForm.zeroFilled {p : UInt8} (hp : p ∈ lit "YMDhmsn") {width : ℕ} {n : ℤ} (hn : 0 ≤ n)
    (hlt : n < 10 ^ (width + 1)) :
    HasForm (List.replicate (width + 1) p) (zeroFilled (width + 1) n) := by
  obtain ⟨ds, htext, hlength, hdigits, -⟩ := exists_digits hn hlt
  rw [htext, ← hlength]
  exact HasForm.digits hp hdigits

theorem HasForm.zero_not_mem {form s : Bytes} (h : HasForm form s) (hform : 0 ∉ form) : 0 ∉ s := by
  induction h with
  | nil => exact hform
  | @cons p c form s hfits _ ih =>
    rw [List.mem_cons, not_or] at hform ⊢
    refine ⟨?_, ih hform.2⟩
    rintro rfl
    rcases (fitsByte_iff p 0).mp hfits with ⟨_, hdigit⟩ | ⟨_, hsame⟩
    · exact absurd hdigit (by decide)
    · exact hform.1 hsame

theorem HasForm.count_dash {form s : Bytes} (h : HasForm form s) :
    s.count 0x2d = form.count 0x2d := by
  induction h with
  | nil => rfl
  | @cons p c form s hfits _ ih =>
    have hdash : c = 0x2d ↔ p = 0x2d := by
      rcases (fitsByte_iff p c).mp hfits with ⟨hp, hdigit⟩ | ⟨_, hsame⟩
      · refine iff_of_false ?_ ?_
        · rintro rfl
          exact absurd hdigit (by decide)
        · rintro rfl
          exact absurd hp (by decide)
      · rw [hsame]
    rw [List.count_cons, List.count_cons, ih]
    simp only [beq_iff_eq, hdash]

theorem Tm.ValidLeap.hasForm {tm : Tm} (h : tm.ValidLeap) (hyear : 0 ≤ tm.year)
    (hyear' : tm.year < 10000) : HasForm (lit "YYYY-MM-DDThh:mm:ss") tm.text := by
  have hday : tm.day ≤ 31 := h.minute.day_le_31
  obtain ⟨⟨⟨hmonth, hmonth', hdayPos, -⟩, hhour, hhour', hminute, hminute', -, -⟩, hsecond,
    hsecond'⟩ := h
  simp only at hmonth hmonth' hdayPos hhour hhour' hminute hminute'
  have hsplit : lit "YYYY-MM-DDThh:mm:ss" = List.replicate 4 0x59 ++ lit "-" ++
    List.replicate 2 0x4d ++ lit "-" ++ List.replicate 2 0x44 ++ lit "T" ++ List.replicate 2 0x68 ++
    lit ":" ++ List.replicate 2 0x6d ++ lit ":" ++ List.replicate 2 0x73 := rfl
  have hdash : HasForm (lit "-") (lit "-") := HasForm.literal (by decide)
  have hT : HasForm (lit "T") (lit "T") := HasForm.literal (by decide)
  have hcolon : HasForm (lit ":") (lit ":") := HasForm.literal (by decide)
  have hyears : HasForm (List.replicate 4 0x59) (zeroFilled 4 tm.year) :=
    HasForm.zeroFilled (by decide) hyear hyear'
  have hmonths : HasForm (List.replicate 2 0x4d) (zeroFilled 2 tm.month) :=
    HasForm.zeroFilled (by decide) (by omega) (by omega)
  have hdays : HasForm (List.replicate 2 0x44) (zeroFilled 2 tm.day) :=
    HasForm.zeroFilled (by decide) (by omega) (by omega)
  have hhours : HasForm (List.replicate 2 0x68) (zeroFilled 2 tm.hour) :=
    HasForm.zeroFilled (by decide) hhour (by omega)
  have hminutes : HasForm (List.replicate 2 0x6d) (zeroFilled 2 tm.minute) :=
    HasForm.zeroFilled (by decide) hminute (by omega)
  have hseconds : HasForm (List.replicate 2 0x73) (zeroFilled 2 tm.second) :=
    HasForm.zeroFilled (by decide) hsecond (by omega)
  rw [hsplit]
  exact (((((((((hyears.append hdash).append hmonths).append hdash).append hdays).append hT).append
    hhours).append hcolon).append hminutes).append hcolon).append hseconds

/-! ## Reading a fraction -/

/-- A point and the digits of a fraction, nothing if there are none. -/
def pointAndDigits (fraction : List ℕ) : Bytes :=
  if fraction = [] then [] else lit "." ++ fraction.map digitChar

section Fraction
variable {fraction : List ℕ}

theorem hasForm_pointAndDigits (hfraction : ∀ d ∈ fraction, d < 10) :
    HasForm (if fraction.length = 0 then [] else lit "." ++ List.replicate fraction.length 0x6e)
      (pointAndDigits fraction) := by
  have hpoint : HasForm (lit ".") (lit ".") := HasForm.literal (by decide)
  unfold pointAndDigits
  by_cases hnone : fraction = []
  · rw [if_pos (List.length_eq_zero_iff.mpr hnone), if_pos hnone]
    exact List.Forall₂.nil
  · rw [if_neg (fun h => hnone (List.length_eq_zero_iff.mp h)), if_neg hnone]
    exact hpoint.append (HasForm.digits (by decide) hfraction)

theorem findZone_pointAndDigits (hfraction : ∀ d ∈ fraction, d < 10) :
    findZone (pointAndDigits fraction ++ lit "Z") = some (lit "Z") := by
  unfold pointAndDigits
  by_cases hnone : fraction = []
  · rw [if_pos hnone]
    rfl
  · have hpos : 0 < fraction.length := List.length_pos_iff.mpr hnone
    have hend : strtolEnd (fraction.map digitChar ++ lit "Z") = lit "Z" :=
      strtolEnd_map hfraction hnone rfl []
    have hpoint : lit "." ++ fraction.map digitChar ++ lit "Z" =
      0x2e :: (fraction.map digitChar ++ lit "Z") := rfl
    rw [if_neg hnone, hpoint, findZone, List.headD_cons, if_pos rfl, List.tail_cons]
    simp only [hend]
    rw [if_neg]
    rw [List.length_append, List.length_map]
    omega

theorem strtod_pointAndDigits (hfraction : ∀ d ∈ fraction, d < 10) {ds : List ℕ}
    (hds : ∀ d ∈ ds, d < 10) :
    strtod (ds.map digitChar ++ (pointAndDigits fraction ++ lit "Z")) =
      ((radixValue 10 ds : ℚ) + radixValue 10 fraction / 10 ^ fraction.length, lit "Z") := by
  have hZ : isDigit 0x5a = false := rfl
  have hpoint : isDigit 0x2e = false := rfl
  unfold strtod pointAndDigits
  by_cases hnone : fraction = []
  · have htext : ([] : Bytes) ++ lit "Z" = 0x5a :: [] := rfl
    have hother : ¬(0x5a : UInt8) = 0x2e := by decide
    rw [if_pos hnone, htext]
    simp only [takeWhile_isDigit hds hZ, dropWhile_isDigit hds hZ, digitsValue_map hds,
      List.headD_cons, if_neg hother]
    rw [hnone, radixValue_nil, Nat.cast_zero, zero_div, add_zero]
    rfl
  · have htext : lit "." ++ fraction.map digitChar ++ lit "Z" =
      0x2e :: (fraction.map digitChar ++ 0x5a :: []) := rfl
    rw [if_neg hnone, htext]
    simp only [takeWhile_isDigit hds hpoint, dropWhile_isDigit hds hpoint, digitsValue_map hds,
      List.headD_cons, List.tail_cons, if_pos, takeWhile_isDigit hfraction hZ,
      dropWhile_isDigit hfraction hZ, digitsValue_map hfraction, List.length_map]
    rfl

/-- A text of the form of a time stamp is read, with its fraction rounded to ten digits and the
last of them cut off. -/
theorem fromCString_pointAndDigits (mktime : Tm → ℤ) (kUtcOffset : ℤ) {tm : Tm} (h : tm.ValidLeap)
    (hyear : 0 ≤ tm.year) (hyear' : tm.year < 10000) (hfraction : ∀ d ∈ fraction, d < 10) :
    fromCString mktime kUtcOffset (tm.text ++ (pointAndDigits fraction ++ lit "Z")) =
      some (((mktime tm + kUtcOffset) * 1000000000 +
        (lround ((radixValue 10 fraction : ℚ) / 10 ^ fraction.length * 10000000000)).tdiv 10).bmod
          (2 ^ 64)) := by
  have hsecond := h.second_le
  obtain ⟨ds, htext, hlength, hdigits, hvalue⟩ :=
    exists_digits h.second_nonneg (show tm.second < 10 ^ (1 + 1) by omega)
  obtain ⟨front, hfront⟩ : ∃ front, tm.text = front ++ zeroFilled 2 tm.second := ⟨_, rfl⟩
  obtain ⟨rest, hrest⟩ : ∃ rest, rest = pointAndDigits fraction ++ lit "Z" := ⟨_, rfl⟩
  have hstrptime : strptime (tm.text ++ rest) = some (tm, rest) :=
    strptime_leap_text h hyear hyear' rest
  have hseconds : (tm.text ++ rest).drop ((tm.text ++ rest).length - rest.length - 2) =
      ds.map digitChar ++ rest := by
    have hsplit : tm.text ++ rest = front ++ (ds.map digitChar ++ rest) := by
      rw [hfront, htext, List.append_assoc]
    have hstart : (front ++ (ds.map digitChar ++ rest)).length - rest.length - 2 =
        front.length := by
      rw [List.length_append, List.length_append, List.length_map, hlength]
      omega
    rw [hsplit, hstart, List.drop_left]
  have hhead := isDigit_headD hdigits (by rw [← List.length_pos_iff]; omega) rest
  have hzone := findZone_pointAndDigits hfraction
  have hnumber := strtod_pointAndDigits hfraction hdigits
  rw [← hrest] at hzone hnumber
  have hdifference : (radixValue 10 ds : ℚ) + radixValue 10 fraction / 10 ^ fraction.length -
      (tm.second : ℚ) = radixValue 10 fraction / 10 ^ fraction.length := by
    rw [← hvalue]
    push_cast
    ring
  rw [← hrest]
  unfold fromCString
  rw [hstrptime]
  simp only [Option.bind_eq_bind, Option.bind_some, hseconds, hhead, hzone, hnumber, guard_true,
    Option.pure_def, hdifference]

end Fraction

/-! ## Valid time stamps -/

/-- A UTC time stamp with a year of four digits and a fraction of at most nine digits. -/
structure UtcTimestamp where
  tm : Tm
  fraction : List ℕ
  valid : tm.Valid
  year_nonneg : 0 ≤ tm.year
  year_lt : tm.year < 10000
  digit_lt : ∀ d ∈ fraction, d < 10
  length_le : fraction.length ≤ 9

namespace UtcTimestamp

def fractionText (s : UtcTimestamp) : Bytes :=
  if s.fraction = [] then [] else lit "." ++ s.fraction.map digitChar

def text (s : UtcTimestamp) : Bytes := s.tm.text ++ (s.fractionText ++ lit "Z")

def nanoseconds (s : UtcTimestamp) : ℕ := radixValue 10 s.fraction * 10 ^ (9 - s.fraction.length)

/-- The nanoseconds from the epoch. -/
def instant (s : UtcTimestamp) : ℤ := timegm s.tm * 1000000000 + s.nanoseconds

variable (s : UtcTimestamp)

/-! ## Reading a valid text -/

theorem lround_fraction :
    (lround ((radixValue 10 s.fraction : ℚ) / 10 ^ s.fraction.length * 10000000000)).tdiv 10 =
      s.nanoseconds := by
  obtain ⟨k, hk⟩ : ∃ k, s.fraction.length + k = 9 := ⟨9 - s.fraction.length, by
    have := s.length_le
    omega⟩
  have hzeros : 9 - s.fraction.length = k := by omega
  have hpow : (10000000000 : ℚ) = 10 ^ s.fraction.length * 10 ^ k * 10 := by
    rw [← pow_add, hk]
    norm_num
  have hscaled : (radixValue 10 s.fraction : ℚ) / 10 ^ s.fraction.length * 10000000000 =
      ((10 * s.nanoseconds : ℤ) : ℚ) := by
    rw [hpow, nanoseconds, hzeros]
    push_cast
    field_simp
  rw [hscaled, lround_intCast]
  exact Int.mul_tdiv_cancel_left _ (by norm_num)

theorem fromCString_text (mktime : Tm → ℤ) (kUtcOffset : ℤ) :
    fromCString mktime kUtcOffset s.text =
      some (((mktime s.tm + kUtcOffset) * 1000000000 + s.nanoseconds).bmod (2 ^ 64)) := by
  have hread := fromCString_pointAndDigits mktime kUtcOffset s.valid.leap s.year_nonneg s.year_lt
    s.digit_lt
  rw [s.lround_fraction] at hread
  exact hread

/-- The form of a text with so many digits in the fraction. -/
def form (digits : ℕ) : Bytes :=
  lit "YYYY-MM-DDThh:mm:ss" ++
    ((if digits = 0 then [] else lit "." ++ List.replicate digits 0x6e) ++ lit "Z")

theorem hasForm_of_leap {tm : Tm} {fraction : List ℕ} (h : tm.ValidLeap) (hyear : 0 ≤ tm.year)
    (hyear' : tm.year < 10000) (hfraction : ∀ d ∈ fraction, d < 10) :
    HasForm (form fraction.length) (tm.text ++ (pointAndDigits fraction ++ lit "Z")) := by
  have hZ : HasForm (lit "Z") (lit "Z") := HasForm.literal (by decide)
  exact (h.hasForm hyear hyear').append ((hasForm_pointAndDigits hfraction).append hZ)

theorem hasForm_text : HasForm (form s.fraction.length) s.text :=
  hasForm_of_leap s.valid.leap s.year_nonneg s.year_lt s.digit_lt

theorem zero_not_mem_form (digits : ℕ) : 0 ∉ form digits := by
  have hletters : 0 ∉ lit "YYYY-MM-DDThh:mm:ss" := by decide
  have hpoint : 0 ∉ lit "." := by decide
  have hZ : 0 ∉ lit "Z" := by decide
  have hdigits : 0 ∉ List.replicate digits (0x6e : UInt8) := by
    intro h
    exact absurd (List.eq_of_mem_replicate h) (by decide)
  unfold form
  by_cases hnone : digits = 0
  · rw [if_pos hnone, List.nil_append, List.mem_append, not_or]
    exact ⟨hletters, hZ⟩
  · rw [if_neg hnone, List.mem_append, List.mem_append, List.mem_append, not_or, not_or, not_or]
    exact ⟨hletters, ⟨hpoint, hdigits⟩, hZ⟩

theorem fromString_text {mktime : Tm → ℤ} {kUtcOffset : ℤ}
    (hmktime : mktime s.tm + kUtcOffset = timegm s.tm) (hlow : (-2 ^ 63 : ℤ) ≤ s.instant)
    (hhigh : s.instant < (2 ^ 63 : ℤ)) :
    rfc3339FromString mktime kUtcOffset s.text = s.instant := by
  have hzero : 0 ∉ s.text := s.hasForm_text.zero_not_mem (zero_not_mem_form _)
  rw [rfc3339FromString_of_zero_not_mem _ _ hzero, s.fromCString_text, hmktime, Option.getD_some,
    ← instant]
  exact Int.bmod_eq_of_le (by omega) (by omega)

/-! ## Writing a time stamp -/

theorem nanoseconds_lt : s.nanoseconds < 1000000000 := by
  have hvalue := radixValue_lt (by omega) s.digit_lt
  have hlength := s.length_le
  have hpow : 10 ^ s.fraction.length * 10 ^ (9 - s.fraction.length) = 1000000000 := by
    rw [← pow_add, show s.fraction.length + (9 - s.fraction.length) = 9 by omega]
    rfl
  rw [nanoseconds, ← hpow]
  exact Nat.mul_lt_mul_of_pos_right hvalue (Nat.pow_pos (by omega))

theorem zeroFilled_nanoseconds (hnine : s.fraction.length = 9) :
    zeroFilled 9 s.nanoseconds = s.fraction.map digitChar := by
  have hfraction := numeral_radixValue (by omega) s.digit_lt
  have hvalue : s.nanoseconds = radixValue 10 s.fraction := by
    rw [nanoseconds, hnine, Nat.sub_self, pow_zero, mul_one]
  rw [zeroFilled_eq 8 s.nanoseconds_lt, hvalue]
  rw [hnine] at hfraction
  rw [hfraction]

theorem seconds_bounds (hlow : (-2 ^ 63 : ℤ) ≤ s.instant) (hhigh : s.instant < (2 ^ 63 : ℤ)) :
    -9223372037 ≤ timegm s.tm ∧ timegm s.tm ≤ 9223372036 := by
  have hlt := s.nanoseconds_lt
  unfold instant at hlow hhigh
  omega

/-- The division towards zero finds the second that a time stamp is in, if it is not before the
epoch, or there is no fraction. -/
theorem tdiv_instant (h : 0 ≤ s.instant ∨ s.nanoseconds = 0) :
    s.instant.tdiv 1000000000 = timegm s.tm := by
  have hlt := s.nanoseconds_lt
  rcases h with hnonneg | hzero
  · rw [Int.tdiv_eq_ediv_of_nonneg hnonneg]
    unfold instant
    omega
  · rw [instant, hzero, Nat.cast_zero, add_zero]
    exact Int.mul_tdiv_cancel _ (by norm_num)

/-- A time stamp of nine digits is written as it is read. -/
theorem toString_instant (hnine : s.fraction.length = 9) (hlow : (-2 ^ 63 : ℤ) ≤ s.instant)
    (hhigh : s.instant < (2 ^ 63 : ℤ)) (h : 0 ≤ s.instant ∨ s.nanoseconds = 0) :
    rfc3339ToString s.instant = s.text := by
  obtain ⟨hseconds, hseconds'⟩ := s.seconds_bounds hlow hhigh
  have hyear := (year_gmtime hseconds hseconds').1
  rw [gmtime_timegm s.valid] at hyear
  have hrest : s.instant - timegm s.tm * 1000000000 = s.nanoseconds := by
    unfold instant
    omega
  have hsome : s.fraction ≠ [] := by
    rw [← List.length_pos_iff]
    omega
  unfold rfc3339ToString
  simp only [s.tdiv_instant h]
  rw [hrest, gmtime_timegm s.valid, format_eq_text hyear, s.zeroFilled_nanoseconds hnine, text,
    fractionText, if_neg hsome, List.append_assoc, List.append_assoc, List.append_assoc]

theorem exists_instant {t : ℤ} (hlow : (-2 ^ 63 : ℤ) ≤ t) (hhigh : t < (2 ^ 63 : ℤ)) :
    ∃ s : UtcTimestamp, s.fraction.length = 9 ∧ s.instant = t := by
  obtain ⟨hyear, hyear'⟩ := year_gmtime (show -9223372037 ≤ t / 1000000000 by omega)
    (show t / 1000000000 ≤ 9223372036 by omega)
  have hrest : (t % 1000000000).toNat < 10 ^ 9 := by omega
  refine ⟨⟨gmtime (t / 1000000000), numeral 10 9 (t % 1000000000).toNat, valid_gmtime _, by omega,
    by omega, numeral_lt (by omega) _ _, by rw [length_numeral]⟩, length_numeral _ _, ?_⟩
  unfold instant nanoseconds
  simp only [timegm_gmtime, radixValue_numeral hrest, length_numeral]
  omega

end UtcTimestamp

/-! ## The clock -/

/-- With `tm_isdst = 0`, local time differs from UTC by a constant. -/
def OffsetFromUtc (mktime : Tm → ℤ) : Prop :=
  ∃ offset, ∀ tm : Tm, tm.Valid → mktime tm = timegm tm - offset

theorem utcOffset_of_offset {mktime : Tm → ℤ} {offset : ℤ}
    (hoffset : ∀ tm : Tm, tm.Valid → mktime tm = timegm tm - offset) (now : ℤ) :
    utcOffset mktime now = offset := by
  rw [utcOffset, hoffset _ (valid_gmtime now), timegm_gmtime]
  omega

theorem utcOffset_eq {mktime : Tm → ℤ} (hmktime : OffsetFromUtc mktime) (now : ℤ) {tm : Tm}
    (h : tm.Valid) : mktime tm + utcOffset mktime now = timegm tm := by
  obtain ⟨offset, hoffset⟩ := hmktime
  rw [utcOffset_of_offset hoffset now, hoffset tm h]
  omega

/-- Every time stamp of the clock is read back from its text. -/
theorem clock_round_trip {mktime : Tm → ℤ} (hmktime : OffsetFromUtc mktime) (now : ℤ)
    {t : ℤ} (hepoch : 0 ≤ t) (hmax : t ≤ 2 ^ 63 - 1) :
    rfc3339FromString mktime (utcOffset mktime now) (rfc3339ToString t) = t ∧
      HasForm (lit "YYYY-MM-DDThh:mm:ss.nnnnnnnnnZ") (rfc3339ToString t) := by
  have hlow : (-2 ^ 63 : ℤ) ≤ t := by omega
  have hhigh : t < (2 ^ 63 : ℤ) := by omega
  obtain ⟨s, hnine, rfl⟩ := UtcTimestamp.exists_instant hlow hhigh
  rw [s.toString_instant hnine hlow hhigh (Or.inl hepoch)]
  constructor
  · exact s.fromString_text (utcOffset_eq hmktime now s.valid) hlow hhigh
  · have hform := s.hasForm_text
    rw [hnine] at hform
    exact hform

/-- An hour east of Greenwich, the largest time stamp. -/
theorem last_instant_round_trip :
    OffsetFromUtc (fun tm => timegm tm - 3600) ∧
      rfc3339FromString (fun tm => timegm tm - 3600) (utcOffset (fun tm => timegm tm - 3600) 0)
        (rfc3339ToString 9223372036854775807) = 9223372036854775807 := by
  have hmktime : OffsetFromUtc (fun tm => timegm tm - 3600) := ⟨3600, fun _ _ => rfl⟩
  exact ⟨hmktime, (clock_round_trip hmktime 0 (by norm_num) (by norm_num)).1⟩

end MetadataAgent
