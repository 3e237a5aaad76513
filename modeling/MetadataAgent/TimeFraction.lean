import MetadataAgent.TimeRoundTrip
import Mathlib.Data.List.GetD

/-! # Fractions of any length

`FromString` cuts a fraction to nine digits: it rounds to ten digits and discards the last one. The
rounding can carry, and does when the tenth digit is a nine and the eleventh is five or more. -/
namespace MetadataAgent
open Lib
set_option autoImplicit false

/-! ## Ten digits, rounded -/

/-- The first nine digits, filled up with zeros. -/
def nineDigits (fraction : List ℕ) : ℕ :=
  radixValue 10 ((fraction ++ List.replicate 9 0).take 9)

/-- The tenth digit is a nine, and the digits behind it round it up. -/
def Carries (fraction : List ℕ) : Prop := fraction.getD 9 0 = 9 ∧ 5 ≤ fraction.getD 10 0

instance carriesDecidable (fraction : List ℕ) : Decidable (Carries fraction) :=
  inferInstanceAs (Decidable (_ ∧ _))

/-- A rational number between two halves rounds to the integer between them. -/
theorem lround_eq {x : ℚ} {n : ℕ} (hlow : (n : ℚ) ≤ x + 1 / 2) (hhigh : x + 1 / 2 < n + 1)
    (hx : 0 ≤ x) : lround x = n := by
  rw [lround, if_pos hx, Int.floor_eq_iff]
  push_cast
  exact ⟨hlow, hhigh⟩

/-- Of the digits behind the tenth, the first decides the rounding. -/
theorem lround_digits {front tail : List ℕ} {d e : ℕ} (he : e < 10) (htail : ∀ t ∈ tail, t < 10) :
    lround ((radixValue 10 (front ++ d :: e :: tail) : ℚ) / 10 ^ (tail.length + 2) * 10) =
      (radixValue 10 front * 10 + d + if 5 ≤ e then 1 else 0 : ℕ) := by
  obtain ⟨w, hw⟩ : ∃ w, w = radixValue 10 front * 10 + d := ⟨_, rfl⟩
  obtain ⟨rest, hrest⟩ : ∃ rest : ℚ, rest = radixValue 10 tail / 10 ^ tail.length := ⟨_, rfl⟩
  have hpow : (0 : ℚ) < 10 ^ tail.length := by positivity
  have hlt : (radixValue 10 tail : ℚ) < 10 ^ tail.length := by
    exact_mod_cast radixValue_lt (by omega) htail
  have hrest_nonneg : 0 ≤ rest := by
    rw [hrest]
    positivity
  have hrest_lt : rest < 1 := by
    rw [hrest]
    exact (div_lt_one hpow).mpr hlt
  have hsplit : front ++ d :: e :: tail = front ++ [d] ++ [e] ++ tail := by simp
  have hvalue : (radixValue 10 (front ++ d :: e :: tail) : ℚ) / 10 ^ (tail.length + 2) * 10 =
      w + (e + rest) / 10 := by
    rw [hsplit, radixValue_append, radixValue_concat, radixValue_concat, ← hw, hrest, pow_add]
    push_cast
    field_simp
    ring
  rw [hvalue, ← hw]
  have heq : (e : ℚ) ≤ 9 := by exact_mod_cast Nat.lt_succ_iff.mp he
  have henonneg : (0 : ℚ) ≤ e := Nat.cast_nonneg e
  have hw_nonneg : (0 : ℚ) ≤ w := Nat.cast_nonneg w
  have hx : (0 : ℚ) ≤ w + (e + rest) / 10 := by positivity
  by_cases hup : 5 ≤ e
  · have hfive : (5 : ℚ) ≤ e := by exact_mod_cast hup
    rw [if_pos hup]
    refine lround_eq ?_ ?_ hx
    · push_cast
      linarith
    · push_cast
      linarith
  · have hfour : (e : ℚ) ≤ 4 := by exact_mod_cast Nat.lt_succ_iff.mp (not_le.mp hup)
    rw [if_neg hup, add_zero]
    refine lround_eq ?_ ?_ hx
    · linarith
    · linarith

/-- Zeros at the end of a fraction change nothing. -/
theorem fraction_append_zeros (fraction : List ℕ) (k : ℕ) :
    (radixValue 10 (fraction ++ List.replicate k 0) : ℚ) / 10 ^ (fraction.length + k) =
      radixValue 10 fraction / 10 ^ fraction.length := by
  rw [radixValue_append_zeros, pow_add]
  push_cast
  exact mul_div_mul_right _ _ (by positivity)

theorem getElem_append_zeros (fraction : List ℕ) {k i : ℕ}
    (hi : i < (fraction ++ List.replicate k 0).length) :
    (fraction ++ List.replicate k 0)[i] = fraction.getD i 0 := by
  by_cases hfront : i < fraction.length
  · rw [List.getElem_append_left hfront, List.getD_eq_getElem _ _ hfront]
  · rw [List.getElem_append_right (not_lt.mp hfront), List.getElem_replicate,
      List.getD_eq_default _ _ (not_lt.mp hfront)]

theorem getD_lt {fraction : List ℕ} (hfraction : ∀ d ∈ fraction, d < 10) (i : ℕ) :
    fraction.getD i 0 < 10 := by
  by_cases hi : i < fraction.length
  · rw [List.getD_eq_getElem _ _ hi]
    exact hfraction _ (List.getElem_mem hi)
  · rw [List.getD_eq_default _ _ (not_lt.mp hi)]
    omega

/-- A fraction, filled up with zeros: nine digits, two more, and a rest. -/
theorem append_zeros_eq (fraction : List ℕ) :
    fraction ++ List.replicate 11 0 = (fraction ++ List.replicate 9 0).take 9 ++
      fraction.getD 9 0 :: fraction.getD 10 0 :: (fraction ++ List.replicate 11 0).drop 11 := by
  have hlength : (fraction ++ List.replicate 11 0).length = fraction.length + 11 := by
    rw [List.length_append, List.length_replicate]
  have hnine : (fraction ++ List.replicate 11 0).take 9 =
      (fraction ++ List.replicate 9 0).take 9 := by
    have hzeros : List.replicate 11 0 = List.replicate 9 0 ++ List.replicate 2 0 := rfl
    have hle : 9 ≤ (fraction ++ List.replicate 9 0).length := by
      rw [List.length_append, List.length_replicate]
      omega
    rw [hzeros, ← List.append_assoc, List.take_append_of_le_length hle]
  have hdrop : (fraction ++ List.replicate 11 0).drop 9 = fraction.getD 9 0 ::
      fraction.getD 10 0 :: (fraction ++ List.replicate 11 0).drop 11 := by
    rw [List.drop_eq_getElem_cons (by omega), List.drop_eq_getElem_cons (by omega),
      getElem_append_zeros, getElem_append_zeros]
  rw [← hnine, ← hdrop, List.take_append_drop]

/-- Rounding to ten digits and discarding the last gives the first nine digits, or one more. -/
theorem lround_tdiv {fraction : List ℕ} (hfraction : ∀ d ∈ fraction, d < 10) :
    (lround ((radixValue 10 fraction : ℚ) / 10 ^ fraction.length * 10000000000)).tdiv 10 =
      nineDigits fraction + if Carries fraction then 1 else 0 := by
  have htail : ∀ t ∈ (fraction ++ List.replicate 11 0).drop 11, t < 10 := by
    intro t ht
    rcases List.mem_append.mp (List.mem_of_mem_drop ht) with hmem | hmem
    · exact hfraction t hmem
    · rw [List.eq_of_mem_replicate hmem]
      omega
  have hlength : fraction.length + 11 =
      ((fraction ++ List.replicate 11 0).drop 11).length + 2 + 9 := by
    rw [List.length_drop, List.length_append, List.length_replicate]
    omega
  have hscaled : (radixValue 10 fraction : ℚ) / 10 ^ fraction.length * 10000000000 =
      (radixValue 10 (fraction ++ List.replicate 11 0) : ℚ) /
        10 ^ (((fraction ++ List.replicate 11 0).drop 11).length + 2) * 10 := by
    have hnine : (10000000000 : ℚ) = 10 ^ 9 * 10 := by norm_num
    rw [← fraction_append_zeros fraction 11, hlength, pow_add _ _ 9, hnine]
    field_simp
  have hdigits := @lround_digits ((fraction ++ List.replicate 9 0).take 9) _ (fraction.getD 9 0) _
    (getD_lt hfraction 10) htail
  rw [← append_zeros_eq, ← nineDigits] at hdigits
  have hlt := getD_lt hfraction 9
  rw [hscaled, hdigits, Int.tdiv_eq_ediv_of_nonneg (Int.natCast_nonneg _)]
  by_cases hcarry : Carries fraction
  · have hten : fraction.getD 9 0 = 9 := hcarry.1
    have hup : 5 ≤ fraction.getD 10 0 := hcarry.2
    rw [if_pos hup, if_pos hcarry, hten]
    omega
  · have hnot : ¬(fraction.getD 9 0 = 9 ∧ 5 ≤ fraction.getD 10 0) := hcarry
    rw [if_neg hcarry]
    by_cases hup : 5 ≤ fraction.getD 10 0
    · have hten : fraction.getD 9 0 ≠ 9 := fun h => hnot ⟨h, hup⟩
      rw [if_pos hup]
      omega
    · rw [if_neg hup]
      omega

/-! ## The truncation of a time stamp -/

/-- A UTC time stamp with a year of four digits and a fraction of any length but none. Its second
may be a leap second. -/
structure FractionTimestamp where
  tm : Tm
  fraction : List ℕ
  valid : tm.ValidLeap
  year_nonneg : 0 ≤ tm.year
  year_lt : tm.year < 10000
  digit_lt : ∀ d ∈ fraction, d < 10
  length_pos : 0 < fraction.length

namespace FractionTimestamp

def text (s : FractionTimestamp) : Bytes :=
  s.tm.text ++ lit "." ++ s.fraction.map digitChar ++ lit "Z"

/-- The instant that is written, in nanoseconds from the epoch. -/
def exact (s : FractionTimestamp) : ℚ :=
  timegm s.tm * 1000000000 + radixValue 10 s.fraction / 10 ^ s.fraction.length * 1000000000

/-- The instant of the whole seconds and the first nine digits. -/
def truncated (s : FractionTimestamp) : ℤ := timegm s.tm * 1000000000 + nineDigits s.fraction

/-- What is read is the truncated instant, not later than the one that is written and less than a
nanosecond before it. -/
structure ReadTruncated (mktime : Tm → ℤ) (kUtcOffset : ℤ) (s : FractionTimestamp) : Prop where
  eq_truncated : rfc3339FromString mktime kUtcOffset s.text = s.truncated
  not_later : (rfc3339FromString mktime kUtcOffset s.text : ℚ) ≤ s.exact
  within : s.exact - rfc3339FromString mktime kUtcOffset s.text ≤ 1

/-- The truncated instant is a count of nanoseconds of `time_point`. -/
def InRange (s : FractionTimestamp) : Prop := -2 ^ 63 ≤ s.truncated ∧ s.truncated < 2 ^ 63

/-- With `tm_isdst = 0`, local time differs from UTC by a constant, at leap seconds too. -/
def LeapOffsetFromUtc (mktime : Tm → ℤ) : Prop :=
  ∃ offset, ∀ tm : Tm, tm.ValidLeap → mktime tm = timegm tm - offset

theorem utcOffset_eq {mktime : Tm → ℤ} (hmktime : LeapOffsetFromUtc mktime) (now : ℤ) {tm : Tm}
    (h : tm.ValidLeap) : mktime tm + utcOffset mktime now = timegm tm := by
  obtain ⟨offset, hoffset⟩ := hmktime
  rw [utcOffset_of_offset (fun tm h => hoffset tm h.leap) now, hoffset tm h]
  omega

variable (s : FractionTimestamp)

theorem text_eq : s.text = s.tm.text ++ (pointAndDigits s.fraction ++ lit "Z") := by
  have hsome : s.fraction ≠ [] := List.length_pos_iff.mp s.length_pos
  rw [text, pointAndDigits, if_neg hsome, List.append_assoc, List.append_assoc, List.append_assoc]

theorem zero_not_mem_text : 0 ∉ s.text := by
  have hform := UtcTimestamp.hasForm_of_leap s.valid s.year_nonneg s.year_lt s.digit_lt
  rw [← s.text_eq] at hform
  exact hform.zero_not_mem (UtcTimestamp.zero_not_mem_form _)

/-- The count of nanoseconds wraps around at 64 bits. -/
theorem fromString_text {mktime : Tm → ℤ} (hmktime : LeapOffsetFromUtc mktime) (now : ℤ) :
    rfc3339FromString mktime (utcOffset mktime now) s.text =
      (s.truncated + if Carries s.fraction then 1 else 0).bmod (2 ^ 64) := by
  rw [rfc3339FromString_of_zero_not_mem _ _ s.zero_not_mem_text, s.text_eq,
    fromCString_pointAndDigits _ _ s.valid s.year_nonneg s.year_lt s.digit_lt,
    lround_tdiv s.digit_lt, utcOffset_eq hmktime now s.valid, Option.getD_some, truncated,
    add_assoc]

/-! ## The truncated instant -/

/-- The first nine digits, and the part of a nanosecond that the others write. -/
theorem fraction_bounds :
    (nineDigits s.fraction : ℚ) ≤
        radixValue 10 s.fraction / 10 ^ s.fraction.length * 1000000000 ∧
      radixValue 10 s.fraction / 10 ^ s.fraction.length * 1000000000 <
        (nineDigits s.fraction : ℚ) + 1 := by
  obtain ⟨front, hfront⟩ : ∃ front, front = (s.fraction ++ List.replicate 9 0).take 9 := ⟨_, rfl⟩
  obtain ⟨tail, htail⟩ : ∃ tail, tail = (s.fraction ++ List.replicate 9 0).drop 9 := ⟨_, rfl⟩
  have hsplit : s.fraction ++ List.replicate 9 0 = front ++ tail := by
    rw [hfront, htail, List.take_append_drop]
  have hlength : s.fraction.length + 9 = tail.length + 9 := by
    rw [htail, List.length_drop, List.length_append, List.length_replicate]
    omega
  have hdigits : ∀ t ∈ tail, t < 10 := by
    intro t ht
    rw [htail] at ht
    rcases List.mem_append.mp (List.mem_of_mem_drop ht) with hmem | hmem
    · exact s.digit_lt t hmem
    · rw [List.eq_of_mem_replicate hmem]
      omega
  have hlt : (radixValue 10 tail : ℚ) < 10 ^ tail.length := by
    exact_mod_cast radixValue_lt (by omega) hdigits
  have hnonneg : (0 : ℚ) ≤ radixValue 10 tail := Nat.cast_nonneg _
  have hpow : (0 : ℚ) < 10 ^ tail.length := by positivity
  have hscaled : (radixValue 10 s.fraction : ℚ) / 10 ^ s.fraction.length * 1000000000 =
      nineDigits s.fraction + radixValue 10 tail / 10 ^ tail.length := by
    have hnine : (1000000000 : ℚ) = 10 ^ 9 := by norm_num
    rw [← fraction_append_zeros s.fraction 9, hsplit, hlength, radixValue_append, nineDigits,
      ← hfront, pow_add, hnine]
    push_cast
    field_simp
  rw [hscaled]
  have hrest : 0 ≤ (radixValue 10 tail : ℚ) / 10 ^ tail.length := div_nonneg hnonneg hpow.le
  have hrest' : (radixValue 10 tail : ℚ) / 10 ^ tail.length < 1 := (div_lt_one hpow).mpr hlt
  constructor
  · linarith
  · linarith

theorem truncated_le : (s.truncated : ℚ) ≤ s.exact := by
  have hbounds := s.fraction_bounds.1
  rw [truncated, exact]
  push_cast
  linarith

theorem exact_sub_truncated_le : s.exact - s.truncated ≤ 1 := by
  have hbounds := s.fraction_bounds.2
  rw [truncated, exact]
  push_cast
  linarith

theorem bmod_succ_ne (t : ℤ) : (t + 1).bmod (2 ^ 64) ≠ t := by
  intro h
  have hmod := Int.bmod_emod (x := t + 1) (m := 2 ^ 64)
  rw [h] at hmod
  push_cast at hmod
  omega

theorem bmod_eq_iff (t : ℤ) : t.bmod (2 ^ 64) = t ↔ -2 ^ 63 ≤ t ∧ t < 2 ^ 63 := by
  constructor
  · intro h
    have hlow := Int.le_bmod (x := t) (m := 2 ^ 64) (by norm_num)
    have hhigh := Int.bmod_lt (x := t) (m := 2 ^ 64) (by norm_num)
    rw [h] at hlow hhigh
    omega
  · rintro ⟨hlow, hhigh⟩
    exact Int.bmod_eq_of_le (by omega) (by omega)

/-- A time stamp is truncated unless the digits behind the ninth round up to one more nanosecond,
or the instant is no `time_point`. -/
theorem read_truncated_iff {mktime : Tm → ℤ} (hmktime : LeapOffsetFromUtc mktime) (now : ℤ) :
    ReadTruncated mktime (utcOffset mktime now) s ↔ ¬Carries s.fraction ∧ s.InRange := by
  have hread := s.fromString_text hmktime now
  constructor
  · intro h
    have htruncated := h.eq_truncated
    rw [hread] at htruncated
    by_cases hcarry : Carries s.fraction
    · rw [if_pos hcarry] at htruncated
      exact absurd htruncated (bmod_succ_ne _)
    · rw [if_neg hcarry, add_zero] at htruncated
      exact ⟨hcarry, (bmod_eq_iff _).mp htruncated⟩
  · rintro ⟨hcarry, hrange⟩
    rw [if_neg hcarry, add_zero, (bmod_eq_iff _).mpr hrange] at hread
    refine ⟨hread, ?_, ?_⟩
    · rw [hread]
      exact s.truncated_le
    · rw [hread]
      exact s.exact_sub_truncated_le

/-- 3 March 2018, with so many digits in the fraction. -/
def inMarch (fraction : List ℕ) (digit_lt : ∀ d ∈ fraction, d < 10)
    (length_pos : 0 < fraction.length) : FractionTimestamp where
  tm := ⟨2018, 3, 3, 1, 23, 45⟩
  fraction := fraction
  valid := Tm.Valid.leap ⟨⟨by decide, by decide, by decide, by decide⟩, by decide, by decide,
    by decide, by decide, by decide, by decide⟩
  year_nonneg := by norm_num
  year_lt := by norm_num
  digit_lt := digit_lt
  length_pos := length_pos

/-- An hour east of Greenwich, a half behind the ninth digit. -/
theorem read_truncated_iff_inMarch :
    LeapOffsetFromUtc (fun tm => timegm tm - 3600) ∧
      (ReadTruncated (fun tm => timegm tm - 3600) (utcOffset (fun tm => timegm tm - 3600) 0)
          (inMarch [1, 2, 3, 4, 5, 6, 7, 8, 9, 5] (by decide) (by decide)) ↔
        ¬Carries [1, 2, 3, 4, 5, 6, 7, 8, 9, 5] ∧
          (inMarch [1, 2, 3, 4, 5, 6, 7, 8, 9, 5] (by decide) (by decide)).InRange) := by
  have hmktime : LeapOffsetFromUtc (fun tm => timegm tm - 3600) := ⟨3600, fun _ _ => rfl⟩
  exact ⟨hmktime, read_truncated_iff _ hmktime 0⟩

/-- In UTC, nine and more than a half behind the ninth digit. -/
theorem carry_read :
    (inMarch [1, 2, 3, 4, 5, 6, 7, 8, 9, 9, 6] (by decide) (by decide)).text =
        lit "2018-03-03T01:23:45.12345678996Z" ∧
      LeapOffsetFromUtc timegm ∧
      rfc3339FromString timegm (utcOffset timegm 0) (lit "2018-03-03T01:23:45.12345678996Z") =
        1520040225123456790 ∧
      ¬ReadTruncated timegm (utcOffset timegm 0)
        (inMarch [1, 2, 3, 4, 5, 6, 7, 8, 9, 9, 6] (by decide) (by decide)) := by
  have htext : (inMarch [1, 2, 3, 4, 5, 6, 7, 8, 9, 9, 6] (by decide) (by decide)).text =
      lit "2018-03-03T01:23:45.12345678996Z" := by decide
  have hread : rfc3339FromString timegm (utcOffset timegm 0)
      (lit "2018-03-03T01:23:45.12345678996Z") = 1520040225123456790 := by decide +kernel
  have htruncated : (inMarch [1, 2, 3, 4, 5, 6, 7, 8, 9, 9, 6] (by decide) (by decide)).truncated =
      1520040225123456789 := by decide +kernel
  refine ⟨htext, ⟨0, fun tm _ => (sub_zero _).symm⟩, hread, ?_⟩
  intro h
  have heq := h.eq_truncated
  rw [htext, hread, htruncated] at heq
  exact absurd heq (by decide)

end FractionTimestamp

end MetadataAgent
