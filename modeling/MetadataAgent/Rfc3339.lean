import MetadataAgent.Calendar
import MetadataAgent.Lib.Radix
import Mathlib.Data.Rat.Floor
import Mathlib.Tactic.FieldSimp

/-! # Reading and writing time stamps

`rfc3339::FromString` reads the date and time with `strptime`, and the seconds once more, as a
decimal number, for their fraction. Behind a byte 0 a string is not read. -/
namespace MetadataAgent
open Lib
set_option autoImplicit false

/-! ## The C library -/

def isDigit (c : UInt8) : Bool := 0x30 ≤ c && c ≤ 0x39

def isSpace (c : UInt8) : Bool := c = 0x20 || (0x09 ≤ c && c ≤ 0x0d)

def digitValue (c : UInt8) : ℕ := c.toNat - 48

/-- The loop of a numeric field: at most `n` more digits, none that would exceed `hi`. -/
def getDigits (hi : ℕ) : ℕ → ℕ → Bytes → ℕ × Bytes
  | 0, val, rp => (val, rp)
  | _ + 1, val, [] => (val, [])
  | n + 1, val, c :: rp =>
    if val * 10 ≤ hi ∧ isDigit c then getDigits hi n (val * 10 + digitValue c) rp
    else (val, c :: rp)

/-- A numeric field of `strptime`: its value and what comes behind it. -/
def getNumber (lo hi n : ℕ) (rp : Bytes) : Option (ℕ × Bytes) :=
  let rp := rp.dropWhile isSpace
  if isDigit (rp.headD 0) then
    let read := getDigits hi n 0 rp
    if lo ≤ read.1 ∧ read.1 ≤ hi then some read else none
  else none

def matchChar (c : UInt8) (rp : Bytes) : Option Bytes :=
  if rp.head? = some c then some rp.tail else none

/-- `strptime` with the format `%Y-%m-%dT%H:%M:%S`: the fields and the end of what it has read. -/
def strptime (s : Bytes) : Option (Tm × Bytes) := do
  let (year, rp) ← getNumber 0 9999 4 s
  let rp ← matchChar 0x2d rp
  let (month, rp) ← getNumber 1 12 2 rp
  let rp ← matchChar 0x2d rp
  let (day, rp) ← getNumber 1 31 2 rp
  let rp ← matchChar 0x54 rp
  let (hour, rp) ← getNumber 0 23 2 rp
  let rp ← matchChar 0x3a rp
  let (minute, rp) ← getNumber 0 59 2 rp
  let rp ← matchChar 0x3a rp
  let (second, rp) ← getNumber 0 61 2 rp
  some (⟨year, month, day, hour, minute, second⟩, rp)

/-- The end of the number that `strtol` reads, the whole text if there is none. -/
def strtolEnd (s : Bytes) : Bytes :=
  let text := s.dropWhile isSpace
  let unsigned := if text.headD 0 = 0x2b ∨ text.headD 0 = 0x2d then text.tail else text
  if isDigit (unsigned.headD 0) then unsigned.dropWhile isDigit else s

def digitsValue (s : Bytes) : ℕ := radixValue 10 (s.map digitValue)

/-- `strtod` of a text that starts with two digits, in exact arithmetic. There is no exponent:
`FromString` has checked that only a `Z` comes behind the digits. -/
def strtod (s : Bytes) : ℚ × Bytes :=
  let whole := digitsValue (s.takeWhile isDigit)
  let rest := s.dropWhile isDigit
  if rest.headD 0 = 0x2e then
    let fraction := rest.tail.takeWhile isDigit
    (whole + digitsValue fraction / 10 ^ fraction.length, rest.tail.dropWhile isDigit)
  else (whole, rest)

/-- Rounding to the nearest number, halves away from zero. -/
def lround (x : ℚ) : ℤ := if 0 ≤ x then ⌊x + 1 / 2⌋ else -⌊-x + 1 / 2⌋

/-! ## `FromString` -/

/-- The text behind the fraction, if there are digits in the fraction. -/
def findZone (rest : Bytes) : Option Bytes :=
  if rest.headD 0 = 0x2e then
    let zone := strtolEnd rest.tail
    if zone.length = rest.tail.length then none else some zone
  else some rest

section Conversion
variable (mktime : Tm → ℤ)

/-- `UTCOffset`; `mktime` is called with `tm_isdst = 0` here and below. -/
def utcOffset (now : ℤ) : ℤ := now - mktime (gmtime now)

variable (kUtcOffset : ℤ)

/-- The time stamp, if the text is well formed. Its count of nanoseconds is a 64-bit number. -/
def fromCString (text : Bytes) : Option Timestamp := do
  let (tm, rest) ← strptime text
  let secondsText := text.drop (text.length - rest.length - 2)
  guard (isDigit (secondsText.headD 0))
  let zone ← findZone rest
  guard (zone = lit "Z")
  let seconds := strtod secondsText
  guard (seconds.2.length = zone.length)
  let ns := (lround ((seconds.1 - tm.second) * 10000000000)).tdiv 10
  let utcTime := mktime tm + kUtcOffset
  some ((utcTime * 1000000000 + ns).bmod (2 ^ 64))

/-- `time::rfc3339::FromString`; the epoch is what it returns for any other text. -/
def rfc3339FromString (s : Bytes) : Timestamp :=
  (fromCString mktime kUtcOffset (s.takeWhile (· ≠ 0))).getD 0

end Conversion

example : rfc3339FromString timegm 0 (lit "2018-03-03T01:23:45.67890123456789Z") =
    1520040225678901234 := by decide +kernel

example : rfc3339FromString timegm 0 (lit "2018-03-03T01:23:45.-678901234Z") = 0 := by
  decide +kernel

theorem rfc3339FromString_of_zero_not_mem (mktime : Tm → ℤ) (kUtcOffset : ℤ) {s : Bytes}
    (h : 0 ∉ s) :
    rfc3339FromString mktime kUtcOffset s = (fromCString mktime kUtcOffset s).getD 0 := by
  have htake : (s ++ []).takeWhile (· ≠ 0) = s ++ List.takeWhile (· ≠ 0) [] :=
    List.takeWhile_append_of_pos fun c hc => decide_eq_true (ne_of_mem_of_not_mem hc h)
  rw [List.append_nil, List.takeWhile_nil, List.append_nil] at htake
  rw [rfc3339FromString, htake]

/-! ## Numerals -/

def digitChar (d : ℕ) : UInt8 := (48 + d).toUInt8

theorem toUInt8_digitChar : ∀ d < 10, (Nat.digitChar d).toNat.toUInt8 = digitChar d := by
  decide

theorem isDigit_digitChar : ∀ d < 10, isDigit (digitChar d) = true := by
  decide

theorem digitValue_digitChar : ∀ d < 10, digitValue (digitChar d) = d := by
  decide

theorem digits_of_lt {n : ℕ} (hn : n < 10) : digits n = [digitChar n] := by
  rw [digits, Nat.toDigits_of_lt_base hn, List.map_singleton, toUInt8_digitChar n hn]

theorem digits_of_le {n : ℕ} (hn : 10 ≤ n) :
    digits n = digits (n / 10) ++ [digitChar (n % 10)] := by
  rw [digits, Nat.toDigits_of_base_le (by omega) hn, List.map_append, List.map_singleton,
    toUInt8_digitChar _ (Nat.mod_lt n (by omega)), digits]

theorem leftpad_concat (width : ℕ) (s : Bytes) (c : UInt8) :
    (s ++ [c]).leftpad (width + 1) 0x30 = s.leftpad width 0x30 ++ [c] := by
  unfold List.leftpad
  rw [List.length_append, List.length_singleton, Nat.add_sub_add_right, List.append_assoc]

theorem numeral_zero (width : ℕ) : numeral 10 width 0 = List.replicate width 0 := by
  induction width with
  | zero => rfl
  | succ width ih => rw [numeral, Nat.zero_div, ih, List.replicate_succ']

theorem zeroFilled_eq (width : ℕ) {n : ℕ} (hn : n < 10 ^ (width + 1)) :
    zeroFilled (width + 1) n = (numeral 10 (width + 1) n).map digitChar := by
  show (digits n).leftpad (width + 1) 0x30 = _
  induction width generalizing n with
  | zero =>
    rw [zero_add, pow_one] at hn
    rw [digits_of_lt hn, numeral, Nat.mod_eq_of_lt hn]
    rfl
  | succ width ih =>
    rw [numeral, List.map_append, List.map_singleton]
    by_cases hsmall : n < 10
    · rw [digits_of_lt hsmall, Nat.div_eq_of_lt hsmall, numeral_zero, Nat.mod_eq_of_lt hsmall,
        List.map_replicate]
      rfl
    · rw [digits_of_le (by omega), leftpad_concat, ih]
      rw [pow_succ] at hn
      omega

theorem lt_length_digits {k n : ℕ} (h : 10 ^ k ≤ n) : k < (digits n).length := by
  induction k generalizing n with
  | zero =>
    rw [digits, List.length_map, List.length_pos_iff]
    exact Nat.toDigits_ne_nil
  | succ k ih =>
    rw [pow_succ] at h
    have hpow : 0 < 10 ^ k := Nat.pow_pos (by omega)
    have hfront := ih (show 10 ^ k ≤ n / 10 by omega)
    rw [digits_of_le (by omega), List.length_append, List.length_singleton]
    omega

theorem decimal_eq_zeroFilled {n : ℤ} (hn : 1000 ≤ n) : decimal n = zeroFilled 4 n := by
  lift n to ℕ using by omega
  have hlength := lt_length_digits (show 10 ^ 3 ≤ n by omega)
  show digits n = List.replicate (4 - (digits n).length) 0x30 ++ digits n
  rw [Nat.sub_eq_zero_of_le hlength, List.replicate_zero, List.nil_append]

/-! ## Reading numerals -/

theorem digitsValue_map {ds : List ℕ} (hds : ∀ d ∈ ds, d < 10) :
    digitsValue (ds.map digitChar) = radixValue 10 ds := by
  have hmap : ds.map (digitValue ∘ digitChar) = ds.map id :=
    List.map_congr_left fun d hd => digitValue_digitChar d (hds d hd)
  rw [digitsValue, List.map_map, hmap, List.map_id]

theorem isDigit_map {ds : List ℕ} (hds : ∀ d ∈ ds, d < 10) :
    ∀ c ∈ ds.map digitChar, isDigit c = true := by
  intro c hc
  obtain ⟨d, hd, rfl⟩ := List.mem_map.mp hc
  exact isDigit_digitChar d (hds d hd)

theorem takeWhile_isDigit {ds : List ℕ} (hds : ∀ d ∈ ds, d < 10) {c : UInt8}
    (hc : isDigit c = false) (rest : Bytes) :
    (ds.map digitChar ++ c :: rest).takeWhile isDigit = ds.map digitChar := by
  rw [List.takeWhile_append_of_pos (isDigit_map hds), List.takeWhile_cons, hc]
  simp

theorem dropWhile_isDigit {ds : List ℕ} (hds : ∀ d ∈ ds, d < 10) {c : UInt8}
    (hc : isDigit c = false) (rest : Bytes) :
    (ds.map digitChar ++ c :: rest).dropWhile isDigit = c :: rest := by
  rw [List.dropWhile_append_of_pos (isDigit_map hds), List.dropWhile_cons, hc]
  simp

theorem getDigits_map (hi : ℕ) {ds : List ℕ} (hds : ∀ d ∈ ds, d < 10) (val : ℕ) (rest : Bytes)
    (hle : val * 10 ^ ds.length + radixValue 10 ds ≤ hi) :
    getDigits hi ds.length val (ds.map digitChar ++ rest) =
      (val * 10 ^ ds.length + radixValue 10 ds, rest) := by
  rw [← foldl_digits] at hle ⊢
  induction ds generalizing val with
  | nil => rfl
  | cons d ds ih =>
    have hd : d < 10 := hds d List.mem_cons_self
    have hrest : ∀ e ∈ ds, e < 10 := fun e he => hds e (List.mem_cons_of_mem d he)
    rw [List.foldl_cons] at hle ⊢
    have hnext : val * 10 + d ≤ hi := by
      have hpow : 1 ≤ 10 ^ ds.length := Nat.one_le_pow _ _ (by omega)
      have hmul : (val * 10 + d) * 1 ≤ (val * 10 + d) * 10 ^ ds.length :=
        Nat.mul_le_mul_left _ hpow
      rw [foldl_digits] at hle
      omega
    rw [List.map_cons, List.cons_append, List.length_cons, getDigits,
      if_pos ⟨by omega, isDigit_digitChar d hd⟩, digitValue_digitChar d hd]
    exact ih hrest _ hle

theorem not_isSpace_of_isDigit {c : UInt8} (h : isDigit c = true) : isSpace c = false := by
  unfold isDigit at h
  unfold isSpace
  rw [Bool.and_eq_true, decide_eq_true_eq, decide_eq_true_eq, UInt8.le_iff_toNat_le,
    UInt8.le_iff_toNat_le] at h
  rw [Bool.or_eq_false_iff, Bool.and_eq_false_iff, decide_eq_false_iff_not, decide_eq_false_iff_not,
    decide_eq_false_iff_not, UInt8.le_iff_toNat_le, UInt8.le_iff_toNat_le, ← UInt8.toNat_inj]
  have hzero : (0x30 : UInt8).toNat = 48 := rfl
  have hblank : (0x20 : UInt8).toNat = 32 := rfl
  have hcontrol : (0x0d : UInt8).toNat = 13 := rfl
  omega

theorem dropWhile_isSpace {s : Bytes} (h : isDigit (s.headD 0) = true) :
    s.dropWhile isSpace = s := by
  cases s with
  | nil => rfl
  | cons c s =>
    have hspace := not_isSpace_of_isDigit h
    rw [List.headD_cons] at hspace
    exact List.dropWhile_cons_of_neg (by rw [hspace]; exact Bool.false_ne_true)

theorem isDigit_headD {ds : List ℕ} (hds : ∀ d ∈ ds, d < 10) (hne : ds ≠ []) (rest : Bytes) :
    isDigit ((ds.map digitChar ++ rest).headD 0) = true := by
  cases ds with
  | nil => exact absurd rfl hne
  | cons d ds => exact isDigit_digitChar d (hds d List.mem_cons_self)

theorem exists_digits {width : ℕ} {n : ℤ} (hn : 0 ≤ n) (hlt : n < 10 ^ (width + 1)) :
    ∃ ds : List ℕ, zeroFilled (width + 1) n = ds.map digitChar ∧ ds.length = width + 1 ∧
      (∀ d ∈ ds, d < 10) ∧ (radixValue 10 ds : ℤ) = n := by
  lift n to ℕ using hn
  have hlt' : n < 10 ^ (width + 1) := by exact_mod_cast hlt
  exact ⟨numeral 10 (width + 1) n, zeroFilled_eq width hlt', length_numeral _ _,
    numeral_lt (by omega) _ _, congrArg Nat.cast (radixValue_numeral hlt')⟩

/-- A zero-filled field is read back, whatever comes behind it. -/
theorem getNumber_zeroFilled {lo hi width : ℕ} {n : ℤ} (hlo : lo ≤ n) (hhi : n ≤ hi)
    (hlt : n < 10 ^ (width + 1)) (rest : Bytes) :
    getNumber lo hi (width + 1) (zeroFilled (width + 1) n ++ rest) = some (n.toNat, rest) := by
  obtain ⟨ds, htext, hlength, hdigits, hvalue⟩ := exists_digits (by omega) hlt
  have hread := getDigits_map hi hdigits 0 rest (by omega)
  have hhead := isDigit_headD hdigits (by rw [← List.length_pos_iff]; omega) rest
  rw [htext]
  unfold getNumber
  simp only [dropWhile_isSpace hhead, ← hlength, hread]
  rw [if_pos hhead, if_pos ⟨by omega, by omega⟩, ← hvalue, Nat.zero_mul, Nat.zero_add]
  rfl

theorem not_sign_of_isDigit {c : UInt8} (h : isDigit c = true) : ¬(c = 0x2b ∨ c = 0x2d) := by
  rintro (rfl | rfl)
  · exact absurd h (by decide)
  · exact absurd h (by decide)

theorem strtolEnd_of_isDigit {s : Bytes} (h : isDigit (s.headD 0) = true) :
    strtolEnd s = s.dropWhile isDigit := by
  unfold strtolEnd
  simp only [dropWhile_isSpace h]
  rw [if_neg (not_sign_of_isDigit h), if_pos h]

theorem strtolEnd_map {ds : List ℕ} (hds : ∀ d ∈ ds, d < 10) (hne : ds ≠ []) {c : UInt8}
    (hc : isDigit c = false) (rest : Bytes) :
    strtolEnd (ds.map digitChar ++ c :: rest) = c :: rest := by
  rw [strtolEnd_of_isDigit (isDigit_headD hds hne (c :: rest)), dropWhile_isDigit hds hc]

theorem lround_intCast (n : ℤ) : lround n = n := by
  unfold lround
  split_ifs
  · rw [Int.floor_eq_iff]
    constructor <;> linarith
  · have hneg : ⌊-(n : ℚ) + 1 / 2⌋ = -n := by
      rw [Int.floor_eq_iff]
      push_cast
      constructor <;> linarith
    rw [hneg, neg_neg]

theorem matchChar_cons (c : UInt8) (rest : Bytes) : matchChar c (c :: rest) = some rest := by
  simp [matchChar]

/-! ## Reading the date and the time -/

/-- The date and the time of day of a time stamp. -/
def Tm.text (tm : Tm) : Bytes :=
  zeroFilled 4 tm.year ++ lit "-" ++ zeroFilled 2 tm.month ++ lit "-" ++ zeroFilled 2 tm.day ++
    lit "T" ++ zeroFilled 2 tm.hour ++ lit ":" ++ zeroFilled 2 tm.minute ++ lit ":" ++
    zeroFilled 2 tm.second

theorem Tm.Valid.day_le_31 {tm : Tm} (h : tm.Valid) : tm.day ≤ 31 := by
  have hday := h.date.day_le
  have hlength : monthLength tm.year tm.month ≤ 31 := by
    unfold monthLength
    split_ifs <;> omega
  omega

/-- A time of day in UTC, which may be a leap second. -/
structure Tm.ValidLeap (tm : Tm) : Prop where
  minute : { tm with second := 0 : Tm }.Valid
  second_nonneg : 0 ≤ tm.second
  second_le : tm.second ≤ 60

theorem Tm.Valid.leap {tm : Tm} (h : tm.Valid) : tm.ValidLeap where
  minute := ⟨h.date, h.hour_nonneg, h.hour_lt, h.minute_nonneg, h.minute_lt, le_refl _, by norm_num⟩
  second_nonneg := h.second_nonneg
  second_le := h.second_lt.le

theorem strptime_leap_text {tm : Tm} (h : tm.ValidLeap) (hyear : 0 ≤ tm.year)
    (hyear' : tm.year < 10000) (rest : Bytes) : strptime (tm.text ++ rest) = some (tm, rest) := by
  have hday : tm.day ≤ 31 := h.minute.day_le_31
  obtain ⟨⟨⟨hmonth, hmonth', hdayPos, -⟩, hhour, hhour', hminute, hminute', -, -⟩, hsecond,
    hsecond'⟩ := h
  simp only at hmonth hmonth' hdayPos hhour hhour' hminute hminute'
  have hliteral : ∀ (c : UInt8) (s : Bytes), matchChar c ([c] ++ s) = some s := matchChar_cons
  have hdash : lit "-" = [0x2d] := rfl
  have hT : lit "T" = [0x54] := rfl
  have hcolon : lit ":" = [0x3a] := rfl
  have hyears : ∀ s, getNumber 0 9999 4 (zeroFilled 4 tm.year ++ s) = some (tm.year.toNat, s) :=
    getNumber_zeroFilled hyear (by omega) (by omega)
  have hmonths : ∀ s, getNumber 1 12 2 (zeroFilled 2 tm.month ++ s) = some (tm.month.toNat, s) :=
    getNumber_zeroFilled hmonth hmonth' (by omega)
  have hdays : ∀ s, getNumber 1 31 2 (zeroFilled 2 tm.day ++ s) = some (tm.day.toNat, s) :=
    getNumber_zeroFilled hdayPos hday (by omega)
  have hhours : ∀ s, getNumber 0 23 2 (zeroFilled 2 tm.hour ++ s) = some (tm.hour.toNat, s) :=
    getNumber_zeroFilled hhour (by omega) (by omega)
  have hminutes : ∀ s, getNumber 0 59 2 (zeroFilled 2 tm.minute ++ s) = some (tm.minute.toNat, s) :=
    getNumber_zeroFilled hminute (by omega) (by omega)
  have hseconds : ∀ s, getNumber 0 61 2 (zeroFilled 2 tm.second ++ s) = some (tm.second.toNat, s) :=
    getNumber_zeroFilled hsecond (by omega) (by omega)
  have hend : some ((⟨tm.year.toNat, tm.month.toNat, tm.day.toNat, tm.hour.toNat, tm.minute.toNat,
      tm.second.toNat⟩ : Tm), rest) = some (tm, rest) := by
    rw [Int.toNat_of_nonneg hyear, Int.toNat_of_nonneg (by omega), Int.toNat_of_nonneg (by omega),
      Int.toNat_of_nonneg hhour, Int.toNat_of_nonneg hminute, Int.toNat_of_nonneg hsecond]
  unfold strptime Tm.text
  simp only [List.append_assoc, hdash, hT, hcolon]
  refine Option.bind_eq_some_iff.mpr ⟨_, hyears _, ?_⟩
  refine Option.bind_eq_some_iff.mpr ⟨_, hliteral _ _, ?_⟩
  refine Option.bind_eq_some_iff.mpr ⟨_, hmonths _, ?_⟩
  refine Option.bind_eq_some_iff.mpr ⟨_, hliteral _ _, ?_⟩
  refine Option.bind_eq_some_iff.mpr ⟨_, hdays _, ?_⟩
  refine Option.bind_eq_some_iff.mpr ⟨_, hliteral _ _, ?_⟩
  refine Option.bind_eq_some_iff.mpr ⟨_, hhours _, ?_⟩
  refine Option.bind_eq_some_iff.mpr ⟨_, hliteral _ _, ?_⟩
  refine Option.bind_eq_some_iff.mpr ⟨_, hminutes _, ?_⟩
  refine Option.bind_eq_some_iff.mpr ⟨_, hliteral _ _, ?_⟩
  refine Option.bind_eq_some_iff.mpr ⟨_, hseconds _, ?_⟩
  exact hend

theorem strptime_text {tm : Tm} (h : tm.Valid) (hyear : 0 ≤ tm.year) (hyear' : tm.year < 10000)
    (rest : Bytes) : strptime (tm.text ++ rest) = some (tm, rest) :=
  strptime_leap_text h.leap hyear hyear' rest

/-- `strftime` writes the texts that `strptime` reads when the year has four digits. -/
theorem format_eq_text {tm : Tm} (hyear : 1000 ≤ tm.year) : tm.format = tm.text := by
  rw [Tm.format, Tm.text, decimal_eq_zeroFilled hyear]

end MetadataAgent
