import MetadataAgent.Lib.Longest
import MetadataAgent.Rfc3339

/-! # Scanning numbers

`strtol` and `strtod` skip white space and read the longest text that has the form of a number: for
`strtod` decimal, hexadecimal, infinite or not a number, with a sign and an exponent. Behind two
digits that is a decimal number. -/
namespace MetadataAgent
open Lib
set_option autoImplicit false

/-! ## Forms -/

def isSign (c : UInt8) : Bool := c = 0x2b || c = 0x2d

/-- The text behind a sign, if there is one. -/
def unsigned (s : Bytes) : Bytes := if isSign (s.headD 0) then s.tail else s

/-- The form that `strtol` reads in base 10. -/
def isLong (s : Bytes) : Bool := someOf isDigit (unsigned s)

def toLower (c : UInt8) : UInt8 := if 0x41 ≤ c ∧ c ≤ 0x5a then c + 0x20 else c

def isHexDigit (c : UInt8) : Bool := isDigit c || (0x61 ≤ toLower c && toLower c ≤ 0x66)

/-- Digits, with at most one point before, behind or between them. -/
def isMantissa (digit : UInt8 → Bool) (s : Bytes) : Bool :=
  let rest := s.dropWhile digit
  s.any digit && (rest.isEmpty || (rest.headD 0 = 0x2e && rest.tail.all digit))

def isExponent (marker : UInt8) (s : Bytes) : Bool :=
  toLower (s.headD 0) = marker && someOf isDigit (unsigned s.tail)

def digitOrPoint (digit : UInt8 → Bool) (c : UInt8) : Bool := digit c || c = 0x2e

/-- A mantissa, and perhaps an exponent. -/
def isFloating (digit : UInt8 → Bool) (marker : UInt8) (s : Bytes) : Bool :=
  let exponent := s.dropWhile (digitOrPoint digit)
  isMantissa digit (s.takeWhile (digitOrPoint digit)) &&
    (exponent.isEmpty || isExponent marker exponent)

def isDecimal (s : Bytes) : Bool := isFloating isDigit 0x65 s

def isHexadecimal (s : Bytes) : Bool :=
  s.headD 0 = 0x30 && toLower (s.tail.headD 0) = 0x78 && isFloating isHexDigit 0x70 (s.drop 2)

def isInfinity (s : Bytes) : Bool :=
  s.map toLower = lit "inf" || s.map toLower = lit "infinity"

/-- The characters of the parentheses of a `nan(...)`. -/
def isNanChar (c : UInt8) : Bool :=
  isDigit c || (0x61 ≤ toLower c && toLower c ≤ 0x7a) || c = 0x5f

def isNan (s : Bytes) : Bool :=
  let rest := s.drop 3
  (s.take 3).map toLower = lit "nan" &&
    (rest.isEmpty ||
      (rest.headD 0 = 0x28 && rest.tail.getLastD 0 = 0x29 && rest.tail.dropLast.all isNanChar))

/-- The form that `strtod` reads in the C locale. -/
def isDouble (s : Bytes) : Bool :=
  let text := unsigned s
  isDecimal text || isHexadecimal text || isInfinity text || isNan text

/-! ## Scanners -/

/-- The end of the number that is read, the whole text if there is none. -/
def scanEnd (form : Bytes → Bool) (s : Bytes) : Bytes :=
  match longestPrefix form (s.dropWhile isSpace) with
  | some number => (s.dropWhile isSpace).drop number.length
  | none => s

example : scanEnd isDouble (lit " -0x1.8p-2Z") = lit "Z" := by decide +kernel

example : scanEnd isDouble (lit "45e+Z") = lit "e+Z" := by decide +kernel

theorem scanEnd_of_some {form : Bytes → Bool} {s number t : Bytes}
    (hs : s.dropWhile isSpace = number ++ t)
    (h : longestPrefix form (s.dropWhile isSpace) = some number) : scanEnd form s = t := by
  unfold scanEnd
  rw [h]
  simp only [hs, List.drop_left]

theorem scanEnd_of_none {form : Bytes → Bool} {s : Bytes}
    (h : longestPrefix form (s.dropWhile isSpace) = none) : scanEnd form s = s := by
  unfold scanEnd
  rw [h]

theorem length_scanEnd_le (form : Bytes → Bool) (s : Bytes) :
    (scanEnd form s).length ≤ s.length := by
  have hspace := (@List.dropWhile_suffix _ s isSpace).length_le
  cases hread : longestPrefix form (s.dropWhile isSpace) with
  | none => rw [scanEnd_of_none hread]
  | some number =>
    obtain ⟨⟨t, ht⟩, -⟩ := longestPrefix_spec hread
    rw [scanEnd_of_some ht.symm hread]
    rw [← ht, List.length_append] at hspace
    omega

/-! ## `strtol` -/

theorem unsigned_cons_of_sign {c : UInt8} (h : isSign c = true) (s : Bytes) :
    unsigned (c :: s) = s := by
  rw [unsigned, List.headD_cons, if_pos h, List.tail_cons]

theorem unsigned_cons_of_not_sign {c : UInt8} (h : isSign c = false) (s : Bytes) :
    unsigned (c :: s) = c :: s := by
  rw [unsigned, List.headD_cons, if_neg (by rw [h]; exact Bool.false_ne_true)]

theorem isLong_nil : isLong [] = false := rfl

theorem longestPrefix_isLong (s : Bytes) :
    longestPrefix isLong s =
      if (unsigned s).takeWhile isDigit = [] then none
      else some (s.take (s.length - (unsigned s).length) ++ (unsigned s).takeWhile isDigit) := by
  cases s with
  | nil => rfl
  | cons c s =>
    cases hsign : isSign c with
    | true =>
      have hform : (fun u => isLong (c :: u)) = someOf isDigit := by
        funext u
        rw [isLong, unsigned_cons_of_sign hsign]
      have hread := longestPrefix_someOf isDigit s
      rw [← hform] at hread
      rw [unsigned_cons_of_sign hsign]
      by_cases hnone : s.takeWhile isDigit = []
      · rw [if_pos hnone] at hread ⊢
        rw [longestPrefix_cons_of_none hread, isLong_nil]
        rfl
      · rw [if_neg hnone] at hread ⊢
        rw [longestPrefix_cons_of_some hread, List.length_cons, Nat.add_sub_cancel_left]
        rfl
    | false =>
      have hform : ∀ v, v <+: c :: s → isLong v = someOf isDigit v := by
        intro v hv
        rcases List.prefix_cons_iff.mp hv with rfl | ⟨t, rfl, -⟩
        · rfl
        · rw [isLong, unsigned_cons_of_not_sign hsign]
      rw [longestPrefix_congr hform, longestPrefix_someOf, unsigned_cons_of_not_sign hsign,
        Nat.sub_self, List.take_zero, List.nil_append]

theorem takeWhile_isDigit_eq_nil_iff (s : Bytes) :
    s.takeWhile isDigit = [] ↔ isDigit (s.headD 0) = false := by
  cases s with
  | nil => decide
  | cons c s =>
    rw [List.headD_cons, List.takeWhile_cons]
    cases isDigit c with
    | true => simp
    | false => simp

theorem take_unsigned_append (s : Bytes) :
    s.take (s.length - (unsigned s).length) ++ unsigned s = s := by
  unfold unsigned
  split_ifs
  · cases s with
    | nil => rfl
    | cons c s => simp
  · simp

/-- The end that `strtol` finds is the one behind the sign and the digits. -/
theorem scanEnd_isLong (s : Bytes) : scanEnd isLong s = strtolEnd s := by
  obtain ⟨text, htext⟩ : ∃ text, text = s.dropWhile isSpace := ⟨_, rfl⟩
  have hread := longestPrefix_isLong text
  have hend : strtolEnd s =
      if isDigit ((unsigned text).headD 0) then (unsigned text).dropWhile isDigit else s := by
    rw [htext]
    simp only [strtolEnd, unsigned, isSign, Bool.or_eq_true, decide_eq_true_eq]
  have hsplit : text = text.take (text.length - (unsigned text).length) ++
      (unsigned text).takeWhile isDigit ++ (unsigned text).dropWhile isDigit := by
    rw [List.append_assoc, List.takeWhile_append_dropWhile, take_unsigned_append]
  rw [htext] at hread hsplit
  rw [hend]
  by_cases hnone : (unsigned text).takeWhile isDigit = []
  · have hdigit := (takeWhile_isDigit_eq_nil_iff _).mp hnone
    rw [htext] at hnone
    rw [if_pos hnone] at hread
    rw [hdigit, scanEnd_of_none hread]
    rfl
  · have hdigit : isDigit ((unsigned text).headD 0) = true := by
      rw [← Bool.not_eq_false, ← takeWhile_isDigit_eq_nil_iff]
      exact hnone
    rw [htext] at hnone
    rw [if_neg hnone] at hread
    rw [if_pos hdigit, htext]
    exact scanEnd_of_some hsplit hread

/-! ## `strtod` behind a digit -/

theorem isSign_of_isDigit {c : UInt8} (h : isDigit c = true) : isSign c = false := by
  have hnot := not_sign_of_isDigit h
  rw [not_or] at hnot
  simp [isSign, hnot.1, hnot.2]

theorem toLower_of_lt {c : UInt8} (h : c.toNat < 65) : toLower c = c := by
  have hletter : ¬(0x41 ≤ c ∧ c ≤ 0x5a) := by
    rw [UInt8.le_iff_toNat_le]
    have hA : (0x41 : UInt8).toNat = 65 := rfl
    omega
  rw [toLower, if_neg hletter]

theorem toLower_of_isDigit {c : UInt8} (h : isDigit c = true) : toLower c = c := by
  unfold isDigit at h
  rw [Bool.and_eq_true, decide_eq_true_eq, decide_eq_true_eq, UInt8.le_iff_toNat_le,
    UInt8.le_iff_toNat_le] at h
  have hnine : (0x39 : UInt8).toNat = 57 := rfl
  exact toLower_of_lt (by omega)

theorem toLower_of_isSpace {c : UInt8} (h : isSpace c = true) : toLower c = c := by
  unfold isSpace at h
  rw [Bool.or_eq_true, Bool.and_eq_true, decide_eq_true_eq, decide_eq_true_eq, decide_eq_true_eq,
    UInt8.le_iff_toNat_le, UInt8.le_iff_toNat_le, ← UInt8.toNat_inj] at h
  have hblank : (0x20 : UInt8).toNat = 32 := rfl
  have hcontrol : (0x0d : UInt8).toNat = 13 := rfl
  exact toLower_of_lt (by omega)

theorem ne_of_isDigit {c x : UInt8} (h : isDigit c = true) (hx : isDigit x = false) : c ≠ x := by
  rintro rfl
  rw [h] at hx
  exact absurd hx.symm Bool.false_ne_true

/-- A text that starts with a digit, and has no `x` behind it, can only be a decimal number. -/
theorem isDouble_of_isDigit {c : UInt8} (hc : isDigit c = true) {s : Bytes}
    (hs : toLower (s.headD 0) ≠ 0x78) : isDouble (c :: s) = isDecimal (c :: s) := by
  have hlower := toLower_of_isDigit hc
  have hhex : isHexadecimal (c :: s) = false := by
    rw [isHexadecimal, List.tail_cons, decide_eq_false hs, Bool.and_false, Bool.false_and]
  have hinf : isInfinity (c :: s) = false := by
    have hi : toLower c ≠ 0x69 := hlower.trans_ne (ne_of_isDigit hc rfl)
    have hinf : lit "inf" = 0x69 :: lit "nf" := rfl
    have hinfinity : lit "infinity" = 0x69 :: lit "nfinity" := rfl
    simp [isInfinity, hinf, hinfinity, hi]
  have hnan : isNan (c :: s) = false := by
    have hn : toLower c ≠ 0x6e := hlower.trans_ne (ne_of_isDigit hc rfl)
    have hnan : lit "nan" = 0x6e :: lit "an" := rfl
    simp [isNan, hnan, hn]
  unfold isDouble
  simp only [unsigned_cons_of_not_sign (isSign_of_isDigit hc), hhex, hinf, hnan, Bool.or_false]

theorem eq_point_cons {rest : Bytes} (h : rest.headD 0 = 0x2e) : ∃ r, rest = 0x2e :: r := by
  cases rest with
  | nil => exact absurd h (by decide)
  | cons x r => exact ⟨r, by rw [← h, List.headD_cons]⟩

theorem exists_mantissa_parts {m : Bytes} (h : isMantissa isDigit m = true) :
    ∃ whole : Bytes, (∀ c ∈ whole, isDigit c = true) ∧
      (m = whole ∨ ∃ fraction : Bytes, (∀ c ∈ fraction, isDigit c = true) ∧
        m = whole ++ 0x2e :: fraction) := by
  unfold isMantissa at h
  simp only [Bool.and_eq_true, Bool.or_eq_true, List.isEmpty_iff, decide_eq_true_eq,
    List.all_eq_true] at h
  refine ⟨m.takeWhile isDigit, fun c hc => List.mem_takeWhile_imp hc, ?_⟩
  rcases h.2 with hnone | ⟨hpoint, hfraction⟩
  · left
    have hsplit := @List.takeWhile_append_dropWhile _ isDigit m
    rw [hnone, List.append_nil] at hsplit
    exact hsplit.symm
  · right
    obtain ⟨fraction, hrest⟩ := eq_point_cons hpoint
    rw [hrest, List.tail_cons] at hfraction
    exact ⟨fraction, hfraction, by rw [← hrest, List.takeWhile_append_dropWhile]⟩

theorem strtod_snd (s : Bytes) :
    (strtod s).2 = if (s.dropWhile isDigit).headD 0 = 0x2e
      then (s.dropWhile isDigit).tail.dropWhile isDigit else s.dropWhile isDigit := by
  by_cases hpoint : (s.dropWhile isDigit).headD 0 = 0x2e
  · rw [if_pos hpoint]
    simp only [strtod, if_pos hpoint]
  · rw [if_neg hpoint]
    simp only [strtod, if_neg hpoint]

theorem strtod_append {whole : Bytes} (h : ∀ c ∈ whole, isDigit c = true) (t : Bytes) :
    (strtod (whole ++ t)).2 = (strtod t).2 := by
  rw [strtod_snd, strtod_snd, List.dropWhile_append_of_pos h]

theorem strtod_point (t : Bytes) : (strtod (0x2e :: t)).2 = t.dropWhile isDigit := by
  have hpoint : (0x2e :: t).dropWhile isDigit = 0x2e :: t :=
    List.dropWhile_cons_of_neg (by decide)
  rw [strtod_snd, hpoint, List.headD_cons, if_pos rfl, List.tail_cons]

theorem length_strtod_le (t : Bytes) : (strtod t).2.length ≤ t.length := by
  have hdrop : ∀ u : Bytes, (u.dropWhile isDigit).length ≤ u.length := fun u =>
    (List.dropWhile_suffix isDigit).length_le
  have hend := hdrop t
  have htail := hdrop (t.dropWhile isDigit).tail
  rw [List.length_tail] at htail
  rw [strtod_snd]
  split_ifs
  · omega
  · exact hend

/-- A mantissa is never longer than what is read. -/
theorem length_strtod_mantissa_le {m : Bytes} (h : isMantissa isDigit m = true) (t : Bytes) :
    (strtod (m ++ t)).2.length ≤ t.length := by
  obtain ⟨whole, hwhole, hm⟩ := exists_mantissa_parts h
  rcases hm with rfl | ⟨fraction, hfraction, rfl⟩
  · rw [strtod_append hwhole]
    exact length_strtod_le t
  · rw [List.append_assoc, strtod_append hwhole, List.cons_append, strtod_point,
      List.dropWhile_append_of_pos hfraction]
    exact (List.dropWhile_suffix isDigit).length_le

/-- A mantissa is all that is read, if neither a digit nor a point comes behind it. -/
theorem strtod_mantissa {m : Bytes} (h : isMantissa isDigit m = true) {t : Bytes}
    (ht : digitOrPoint isDigit (t.headD 0) = false) : (strtod (m ++ t)).2 = t := by
  obtain ⟨whole, hwhole, hm⟩ := exists_mantissa_parts h
  simp only [digitOrPoint, Bool.or_eq_false_iff, decide_eq_false_iff_not] at ht
  have hdrop : t.dropWhile isDigit = t := by
    cases t with
    | nil => rfl
    | cons c t => exact List.dropWhile_cons_of_neg (Bool.eq_false_iff.mp ht.1)
  rcases hm with rfl | ⟨fraction, hfraction, rfl⟩
  · rw [strtod_append hwhole, strtod_snd, hdrop, if_neg ht.2]
  · rw [List.append_assoc, strtod_append hwhole, List.cons_append, strtod_point,
      List.dropWhile_append_of_pos hfraction, hdrop]

section Parts
variable {whole fraction : Bytes}

theorem any_append_of_digits (hwhole : ∀ c ∈ whole, isDigit c = true) (hsome : whole ≠ [])
    (t : Bytes) : (whole ++ t).any isDigit = true := by
  obtain ⟨c, hc⟩ := List.exists_mem_of_ne_nil whole hsome
  exact List.any_eq_true.mpr ⟨c, List.mem_append_left t hc, hwhole c hc⟩

theorem isMantissa_whole (hwhole : ∀ c ∈ whole, isDigit c = true) (hsome : whole ≠ []) :
    isMantissa isDigit whole = true := by
  have hdrop : whole.dropWhile isDigit = [] := List.dropWhile_eq_nil_iff.mpr hwhole
  have hany := any_append_of_digits hwhole hsome []
  rw [List.append_nil] at hany
  unfold isMantissa
  simp only [hany, hdrop, List.isEmpty_nil, Bool.true_or, Bool.and_true]

theorem isMantissa_point (hwhole : ∀ c ∈ whole, isDigit c = true) (hsome : whole ≠ [])
    (hfraction : ∀ c ∈ fraction, isDigit c = true) :
    isMantissa isDigit (whole ++ 0x2e :: fraction) = true := by
  have hdrop : (whole ++ 0x2e :: fraction).dropWhile isDigit = 0x2e :: fraction := by
    rw [List.dropWhile_append_of_pos hwhole]
    exact List.dropWhile_cons_of_neg (by decide)
  unfold isMantissa
  simp only [any_append_of_digits hwhole hsome, hdrop, List.headD_cons, List.tail_cons,
    decide_true, Bool.true_and]
  rw [List.all_eq_true.mpr hfraction, Bool.or_true]

end Parts

/-- What is read behind a digit is a mantissa. -/
theorem exists_mantissa {s : Bytes} (h : isDigit (s.headD 0) = true) :
    ∃ m : Bytes, s = m ++ (strtod s).2 ∧ isMantissa isDigit m = true := by
  have hdigits : ∀ c ∈ s.takeWhile isDigit, isDigit c = true := fun c hc =>
    List.mem_takeWhile_imp hc
  have hsome : s.takeWhile isDigit ≠ [] := by
    rw [Ne, takeWhile_isDigit_eq_nil_iff, h]
    exact Bool.noConfusion
  have hsplit := @List.takeWhile_append_dropWhile _ isDigit s
  rw [strtod_snd]
  by_cases hpoint : (s.dropWhile isDigit).headD 0 = 0x2e
  · obtain ⟨tail, htail⟩ := eq_point_cons hpoint
    refine ⟨s.takeWhile isDigit ++ 0x2e :: tail.takeWhile isDigit, ?_,
      isMantissa_point hdigits hsome fun c hc => List.mem_takeWhile_imp hc⟩
    rw [if_pos hpoint, htail, List.tail_cons, List.append_assoc, List.cons_append,
      List.takeWhile_append_dropWhile, ← htail, hsplit]
  · refine ⟨s.takeWhile isDigit, ?_, isMantissa_whole hdigits hsome⟩
    rw [if_neg hpoint, hsplit]

theorem isFloating_of_isMantissa {digit : UInt8 → Bool} {marker : UInt8} {m : Bytes}
    (h : isMantissa digit m = true) (hall : ∀ c ∈ m, digitOrPoint digit c = true) :
    isFloating digit marker m = true := by
  have htake : m.takeWhile (digitOrPoint digit) = m := List.takeWhile_eq_self_iff.mpr hall
  have hdrop : m.dropWhile (digitOrPoint digit) = [] := List.dropWhile_eq_nil_iff.mpr hall
  unfold isFloating
  simp only [htake, hdrop, h, List.isEmpty_nil, Bool.true_or, Bool.and_true]

theorem digitOrPoint_of_isMantissa {m : Bytes} (h : isMantissa isDigit m = true) :
    ∀ c ∈ m, digitOrPoint isDigit c = true := by
  obtain ⟨whole, hwhole, hm⟩ := exists_mantissa_parts h
  have hdigit : ∀ c, isDigit c = true → digitOrPoint isDigit c = true := by
    intro c hc
    rw [digitOrPoint, hc, Bool.true_or]
  rcases hm with rfl | ⟨fraction, hfraction, rfl⟩
  · exact fun c hc => hdigit c (hwhole c hc)
  · intro c hc
    rcases List.mem_append.mp hc with hmem | hmem
    · exact hdigit c (hwhole c hmem)
    · rcases List.mem_cons.mp hmem with rfl | hmem
      · rfl
      · exact hdigit c (hfraction c hmem)

/-- Without an exponent, a decimal number is a mantissa. -/
theorem length_le_of_isDecimal {s v : Bytes} (hv : v <+: s) (hform : isDecimal v = true)
    (hend : toLower ((strtod s).2.headD 0) ≠ 0x65) : (strtod s).2.length + v.length ≤ s.length := by
  obtain ⟨t, rfl⟩ := hv
  obtain ⟨m, hm⟩ : ∃ m, m = v.takeWhile (digitOrPoint isDigit) := ⟨_, rfl⟩
  obtain ⟨exponent, hexponent⟩ : ∃ exponent, exponent = v.dropWhile (digitOrPoint isDigit) :=
    ⟨_, rfl⟩
  have hsplit : v = m ++ exponent := by
    rw [hm, hexponent, List.takeWhile_append_dropWhile]
  unfold isDecimal isFloating at hform
  simp only [← hm, ← hexponent, Bool.and_eq_true, Bool.or_eq_true, List.isEmpty_iff] at hform
  obtain ⟨hmantissa, hnone | hsome⟩ := hform
  · rw [hsplit, hnone, List.append_nil, List.length_append]
    have hle := length_strtod_mantissa_le hmantissa t
    omega
  · exfalso
    unfold isExponent at hsome
    simp only [Bool.and_eq_true, decide_eq_true_eq] at hsome
    have hcons : exponent ≠ [] := by
      intro hnil
      rw [hnil] at hsome
      exact absurd hsome.1 (by decide)
    obtain ⟨c, rest, rfl⟩ := List.exists_cons_of_ne_nil hcons
    have hstops : digitOrPoint isDigit c = false := by
      have hhead := List.head_dropWhile_not (digitOrPoint isDigit) (hexponent ▸ hcons)
      simpa [← hexponent] using hhead
    rw [hsplit, List.append_assoc, strtod_mantissa hmantissa (by exact hstops)] at hend
    exact hend hsome.1

/-- Behind two digits `strtod` reads digits, with a point among them, if no exponent follows. -/
theorem scanEnd_isDouble {c d : UInt8} (hc : isDigit c = true) (hd : isDigit d = true) {t : Bytes}
    (hend : toLower ((strtod (c :: d :: t)).2.headD 0) ≠ 0x65) :
    scanEnd isDouble (c :: d :: t) = (strtod (c :: d :: t)).2 := by
  obtain ⟨s, hs⟩ : ∃ s, s = c :: d :: t := ⟨_, rfl⟩
  have hhead : isDigit (s.headD 0) = true := by
    rw [hs]
    exact hc
  obtain ⟨m, hsplit, hmantissa⟩ := exists_mantissa hhead
  have hspace := dropWhile_isSpace hhead
  have hform : ∀ v, v <+: s → isDouble v = isDecimal v := by
    intro v hv
    rw [hs] at hv
    rcases List.prefix_cons_iff.mp hv with rfl | ⟨w, rfl, hw⟩
    · rfl
    · refine isDouble_of_isDigit hc ?_
      rcases List.prefix_cons_iff.mp hw with rfl | ⟨w, rfl, -⟩
      · decide
      · rw [List.headD_cons, toLower_of_isDigit hd]
        exact ne_of_isDigit hd rfl
  rw [← hs] at hend ⊢
  have hlength := congrArg List.length hsplit
  rw [List.length_append] at hlength
  refine scanEnd_of_some (hspace.trans hsplit) ?_
  rw [hspace, longestPrefix_congr hform]
  refine longestPrefix_eq_some ⟨_, hsplit.symm⟩ ?_ fun v hv hvform => ?_
  · exact isFloating_of_isMantissa hmantissa (digitOrPoint_of_isMantissa hmantissa)
  · have hle := length_le_of_isDecimal hv hvform hend
    omega

end MetadataAgent
