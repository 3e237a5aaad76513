import MetadataAgent.Scanners

/-! # Which texts are time stamps

`FromString` reads a text with three scanners and compares the ends that they find. Whatever their
forms allow, what passes has two digits of seconds, then a `Z` or a fraction and a `Z`. -/
namespace MetadataAgent
open Lib
set_option autoImplicit false

/-! ## `FromString` over the scanners -/

/-- `strptime` stops right behind one or two digits of seconds, with white space before them. -/
def StopsAfterSeconds (strptime : Bytes → Option (Tm × Bytes)) : Prop :=
  ∀ s tm rest, strptime s = some (tm, rest) → ∃ front blanks seconds : Bytes,
    s = front ++ lit ":" ++ blanks ++ seconds ++ rest ∧ (∀ c ∈ blanks, isSpace c = true) ∧
      (∀ c ∈ seconds, isDigit c = true) ∧ 0 < seconds.length ∧ seconds.length ≤ 2

/-! ## The `strptime` of the time stamps -/

theorem getDigits_split {hi : ℕ} {n val : ℕ} {rp : Bytes} :
    ∃ ds : Bytes, rp = ds ++ (getDigits hi n val rp).2 ∧ (∀ c ∈ ds, isDigit c = true) ∧
      ds.length ≤ n := by
  fun_induction getDigits hi n val rp with
  | case1 val rp => exact ⟨[], rfl, by simp, le_refl _⟩
  | case2 n val => exact ⟨[], rfl, by simp, Nat.zero_le _⟩
  | case3 n val c rp hdigit ih =>
    obtain ⟨ds, hsplit, hdigits, hlength⟩ := ih
    refine ⟨c :: ds, ?_, ?_, Nat.succ_le_succ hlength⟩
    · rw [List.cons_append, ← hsplit]
    · exact List.forall_mem_cons.mpr ⟨hdigit.2, hdigits⟩
  | case4 n val c rp hstop => exact ⟨[], rfl, by simp, Nat.zero_le _⟩

/-- A numeric field: white space, and one to `n` digits. -/
theorem getNumber_split {lo hi n value : ℕ} {rp rest : Bytes}
    (h : getNumber lo hi (n + 1) rp = some (value, rest)) :
    ∃ blanks ds : Bytes, rp = blanks ++ ds ++ rest ∧ (∀ c ∈ blanks, isSpace c = true) ∧
      (∀ c ∈ ds, isDigit c = true) ∧ 0 < ds.length ∧ ds.length ≤ n + 1 := by
  obtain ⟨text, htext⟩ : ∃ text, text = rp.dropWhile isSpace := ⟨_, rfl⟩
  unfold getNumber at h
  simp only [← htext] at h
  by_cases hdigit : isDigit (text.headD 0) = true
  · rw [if_pos hdigit] at h
    obtain ⟨c, tail, rfl⟩ : ∃ c tail, text = c :: tail := by
      refine List.exists_cons_of_ne_nil ?_
      rintro rfl
      exact absurd hdigit (by decide)
    have hfirst : getDigits hi (n + 1) 0 (c :: tail) =
        getDigits hi n (0 * 10 + digitValue c) tail := by
      rw [getDigits, if_pos ⟨by omega, hdigit⟩]
    obtain ⟨ds, hsplit, hdigits, hlength⟩ := @getDigits_split hi n (0 * 10 + digitValue c) tail
    rw [hfirst] at h
    by_cases hrange : lo ≤ (getDigits hi n (0 * 10 + digitValue c) tail).1 ∧
        (getDigits hi n (0 * 10 + digitValue c) tail).1 ≤ hi
    · rw [if_pos hrange, Option.some.injEq] at h
      rw [h] at hsplit
      refine ⟨rp.takeWhile isSpace, c :: ds, ?_, fun x hx => List.mem_takeWhile_imp hx,
        List.forall_mem_cons.mpr ⟨hdigit, hdigits⟩, Nat.succ_pos _, Nat.succ_le_succ hlength⟩
      rw [List.append_assoc, List.cons_append, ← hsplit, htext, List.takeWhile_append_dropWhile]
    · rw [if_neg hrange] at h
      exact absurd h.symm (Option.some_ne_none _)
  · rw [if_neg hdigit] at h
    exact absurd h.symm (Option.some_ne_none _)

theorem getNumber_suffix {lo hi n value : ℕ} {rp rest : Bytes}
    (h : getNumber lo hi (n + 1) rp = some (value, rest)) : rest <:+ rp := by
  obtain ⟨blanks, ds, hsplit, -⟩ := getNumber_split h
  exact ⟨blanks ++ ds, hsplit.symm⟩

theorem matchChar_split {c : UInt8} {rp rest : Bytes} (h : matchChar c rp = some rest) :
    rp = c :: rest := by
  unfold matchChar at h
  by_cases hhead : rp.head? = some c
  · rw [if_pos hhead, Option.some.injEq] at h
    rw [← h, List.cons_head?_tail hhead]
  · rw [if_neg hhead] at h
    exact absurd h.symm (Option.some_ne_none _)

theorem matchChar_suffix {c : UInt8} {rp rest : Bytes} (h : matchChar c rp = some rest) :
    rest <:+ rp := by
  rw [matchChar_split h]
  exact List.suffix_cons c rest

theorem stopsAfterSeconds_strptime : StopsAfterSeconds strptime := by
  intro s tm rest h
  unfold strptime at h
  simp only [Option.bind_eq_bind, Option.bind_eq_some_iff, Prod.exists] at h
  obtain ⟨year, s1, hyear, s2, hdash, month, s3, hmonth, s4, hdash', day, s5, hday, s6, hT, hour,
    s7, hhour, s8, hcolon, minute, s9, hminute, s10, hcolon', second, s11, hsecond, hend⟩ := h
  rw [Option.some.injEq, Prod.mk.injEq] at hend
  obtain ⟨-, rfl⟩ := hend
  have hdate : s6 <:+ s := (matchChar_suffix hT).trans <| (getNumber_suffix hday).trans <|
    (matchChar_suffix hdash').trans <| (getNumber_suffix hmonth).trans <|
    (matchChar_suffix hdash).trans (getNumber_suffix hyear)
  have htime : s9 <:+ s := (getNumber_suffix hminute).trans <| (matchChar_suffix hcolon).trans <|
    (getNumber_suffix hhour).trans hdate
  obtain ⟨front, hfront⟩ := htime
  obtain ⟨blanks, ds, hsplit, hblanks, hdigits, hpos, hle⟩ := getNumber_split hsecond
  refine ⟨front, blanks, ds, ?_, hblanks, hdigits, hpos, hle⟩
  rw [← hfront, matchChar_split hcolon', hsplit]
  simp [lit]

namespace Scanning

/-- The text behind the fraction, if `strtol` reads a number there. -/
def findZone (rest : Bytes) : Option Bytes :=
  if rest.headD 0 = 0x2e then
    let zone := scanEnd isLong rest.tail
    if rest.tail.length ≤ zone.length then none else some zone
  else some rest

section Conversion
variable (strptime : Bytes → Option (Tm × Bytes)) (strtodValue : Bytes → ℚ) (mktime : Tm → ℤ)
  (kUtcOffset : ℤ)

/-- `FromString` on a C string; `strtodValue` is the value of the number that a text starts with. -/
def fromCString (text : Bytes) : Option Timestamp := do
  let (tm, rest) ← strptime text
  let secondsText := text.drop (text.length - rest.length - 2)
  guard (isDigit (secondsText.headD 0))
  let zone ← findZone rest
  guard (zone = lit "Z")
  guard ((scanEnd isDouble secondsText).length = zone.length)
  let ns := (lround ((strtodValue secondsText - tm.second) * 10000000000)).tdiv 10
  let utcTime := mktime tm + kUtcOffset
  some ((utcTime * 1000000000 + ns).bmod (2 ^ 64))

def rfc3339FromString (s : Bytes) : Timestamp :=
  (fromCString strptime strtodValue mktime kUtcOffset (s.takeWhile (· ≠ 0))).getD 0

end Conversion

/-! ## Zones -/

/-- A `Z`, perhaps with a point and decimal digits before it. -/
def IsZone (rest : Bytes) : Prop :=
  rest = lit "Z" ∨ ∃ fraction : Bytes, fraction ≠ [] ∧ (∀ c ∈ fraction, isDigit c = true) ∧
    rest = lit "." ++ fraction ++ lit "Z"

theorem findZone_eq (rest : Bytes) : findZone rest =
    if rest.headD 0 = 0x2e then
      if rest.tail.length ≤ (strtolEnd rest.tail).length then none else some (strtolEnd rest.tail)
    else some rest := by
  rw [findZone, scanEnd_isLong]

theorem isDigit_headD_append {ds : Bytes} (h : ∀ c ∈ ds, isDigit c = true) (hne : ds ≠ [])
    (t : Bytes) : isDigit ((ds ++ t).headD 0) = true := by
  obtain ⟨c, ds, rfl⟩ := List.exists_cons_of_ne_nil hne
  exact h c List.mem_cons_self

theorem dropWhile_append_Z {ds : Bytes} (h : ∀ c ∈ ds, isDigit c = true) :
    (ds ++ lit "Z").dropWhile isDigit = lit "Z" := by
  rw [List.dropWhile_append_of_pos h]
  rfl

/-- Between the point and the number that `strtol` finds before a `Z` comes no exponent. -/
theorem not_exponent_of_strtolEnd {r : Bytes} (h : strtolEnd r = lit "Z")
    (hlength : ¬r.length ≤ (strtolEnd r).length) :
    toLower ((r.dropWhile isDigit).headD 0) ≠ 0x65 := by
  cases r with
  | nil => exact absurd (Nat.zero_le _) hlength
  | cons x r =>
    cases hx : isDigit x with
    | true =>
      rw [← @strtolEnd_of_isDigit (x :: r) hx, h]
      decide
    | false =>
      have hdrop : (x :: r).dropWhile isDigit = x :: r :=
        List.dropWhile_cons_of_neg (Bool.eq_false_iff.mp hx)
      rw [hdrop, List.headD_cons]
      intro hexponent
      have hspace : isSpace x = false := by
        rw [Bool.eq_false_iff]
        intro hspace
        rw [toLower_of_isSpace hspace] at hexponent
        rw [hexponent] at hspace
        exact absurd hspace (by decide)
      have hsign : ¬(x = 0x2b ∨ x = 0x2d) := by
        rintro (rfl | rfl)
        · exact absurd hexponent (by decide)
        · exact absurd hexponent (by decide)
      have hnone : strtolEnd (x :: r) = x :: r := by
        have hskip : (x :: r).dropWhile isSpace = x :: r :=
          List.dropWhile_cons_of_neg (Bool.eq_false_iff.mp hspace)
        unfold strtolEnd
        simp only [hskip, List.headD_cons]
        rw [if_neg hsign, List.headD_cons, hx]
        rfl
      exact hlength (by rw [hnone])

variable {c d : UInt8}

theorem strtod_digits (hc : isDigit c = true) (hd : isDigit d = true) (t : Bytes) :
    (strtod (c :: d :: t)).2 = (strtod t).2 := by
  have hdigits : ∀ x ∈ [c, d], isDigit x = true := by simp [hc, hd]
  exact strtod_append hdigits t

/-- The `strtol` of a fraction before a `Z`: it has read something, and its end is the `Z`. -/
theorem findZone_point {r : Bytes} (h : findZone (0x2e :: r) = some (lit "Z")) :
    strtolEnd r = lit "Z" ∧ ¬r.length ≤ (strtolEnd r).length := by
  rw [findZone_eq, List.headD_cons, if_pos rfl, List.tail_cons] at h
  by_cases hmissing : r.length ≤ (strtolEnd r).length
  · rw [if_pos hmissing] at h
    exact absurd h.symm (Option.some_ne_none _)
  · rw [if_neg hmissing, Option.some.injEq] at h
    exact ⟨h, hmissing⟩

theorem findZone_not_point {rest : Bytes} (h : findZone rest = some (lit "Z"))
    (hpoint : ¬rest.headD 0 = 0x2e) : rest = lit "Z" := by
  rw [findZone_eq, if_neg hpoint, Option.some.injEq] at h
  exact h

/-- When `strtol` has found the `Z`, there is no exponent for `strtod`. -/
theorem scanEnd_of_findZone (hc : isDigit c = true) (hd : isDigit d = true) {rest : Bytes}
    (h : findZone rest = some (lit "Z")) :
    scanEnd isDouble (c :: d :: rest) = (strtod (c :: d :: rest)).2 := by
  refine scanEnd_isDouble hc hd ?_
  rw [strtod_digits hc hd]
  by_cases hpoint : rest.headD 0 = 0x2e
  · obtain ⟨r, rfl⟩ := eq_point_cons hpoint
    obtain ⟨hend, hlength⟩ := findZone_point h
    rw [strtod_point]
    exact not_exponent_of_strtolEnd hend hlength
  · rw [findZone_not_point h hpoint]
    decide

theorem isZone_of_ends {rest : Bytes} (h : findZone rest = some (lit "Z"))
    (hlength : (strtod rest).2.length = (lit "Z").length) : IsZone rest := by
  by_cases hpoint : rest.headD 0 = 0x2e
  · right
    obtain ⟨r, rfl⟩ := eq_point_cons hpoint
    obtain ⟨hend, hread⟩ := findZone_point h
    rw [strtod_point] at hlength
    have hsplit := @List.takeWhile_append_dropWhile _ isDigit r
    by_cases hdigit : isDigit (r.headD 0) = true
    · rw [strtolEnd_of_isDigit hdigit] at hend
      refine ⟨r.takeWhile isDigit, ?_, fun x hx => List.mem_takeWhile_imp hx, ?_⟩
      · rw [Ne, takeWhile_isDigit_eq_nil_iff, hdigit]
        exact Bool.noConfusion
      · rw [← hend, List.append_assoc, hsplit]
        rfl
    · rw [(takeWhile_isDigit_eq_nil_iff r).mpr (Bool.eq_false_iff.mpr hdigit),
        List.nil_append] at hsplit
      rw [hsplit] at hlength
      rw [hend] at hread
      exact absurd hlength.le hread
  · exact Or.inl (findZone_not_point h hpoint)

theorem ends_of_isZone {rest : Bytes} (h : IsZone rest) :
    findZone rest = some (lit "Z") ∧ (strtod rest).2 = lit "Z" := by
  rcases h with rfl | ⟨fraction, hsome, hfraction, rfl⟩
  · exact ⟨by decide, by decide⟩
  · have hpoint : lit "." ++ fraction ++ lit "Z" = 0x2e :: (fraction ++ lit "Z") := rfl
    have hdrop := dropWhile_append_Z hfraction
    have hhead := isDigit_headD_append hfraction hsome (lit "Z")
    have hlength : 0 < fraction.length := List.length_pos_iff.mpr hsome
    rw [hpoint]
    constructor
    · rw [findZone_eq, List.headD_cons, if_pos rfl, List.tail_cons, strtolEnd_of_isDigit hhead,
        hdrop, if_neg]
      rw [List.length_append]
      omega
    · rw [strtod_point, hdrop]

/-- Behind two digits the ends of the scanners agree at a `Z` when there is a zone. -/
theorem ends_agree_iff (hc : isDigit c = true) (hd : isDigit d = true) (rest : Bytes) :
    (findZone rest = some (lit "Z") ∧
        (scanEnd isDouble (c :: d :: rest)).length = (lit "Z").length) ↔ IsZone rest := by
  constructor
  · rintro ⟨hzone, hlength⟩
    rw [scanEnd_of_findZone hc hd hzone, strtod_digits hc hd] at hlength
    exact isZone_of_ends hzone hlength
  · intro h
    obtain ⟨hzone, hend⟩ := ends_of_isZone h
    rw [scanEnd_of_findZone hc hd hzone, strtod_digits hc hd, hend]
    exact ⟨hzone, rfl⟩

/-! ## The scanners of the time stamps -/

/-- There are two characters before the end that `strptime` finds, and the second is a digit. -/
theorem exists_seconds {strptime : Bytes → Option (Tm × Bytes)} {s : Bytes}
    (h : StopsAfterSeconds strptime) {tm : Tm} {rest : Bytes}
    (hread : strptime s = some (tm, rest)) :
    ∃ front c d, s = front ++ c :: d :: rest ∧ isDigit d = true := by
  obtain ⟨front, blanks, seconds, hs, -, hdigits, hpos, -⟩ := h s tm rest hread
  have hseconds : seconds ≠ [] := List.length_pos_iff.mp hpos
  obtain ⟨before, hbefore⟩ : ∃ before,
      before = front ++ lit ":" ++ blanks ++ seconds.dropLast := ⟨_, rfl⟩
  have hsome : before ≠ [] := by
    rw [hbefore, ← List.length_pos_iff]
    simp [lit]
  refine ⟨before.dropLast, before.getLast hsome, seconds.getLast hseconds, ?_,
    hdigits _ (List.getLast_mem hseconds)⟩
  have hfirst : before.dropLast ++ [before.getLast hsome] = before :=
    List.dropLast_append_getLast hsome
  have hsecond : seconds.dropLast ++ [seconds.getLast hseconds] = seconds :=
    List.dropLast_append_getLast hseconds
  have hsplit : before.dropLast ++ before.getLast hsome :: seconds.getLast hseconds :: rest =
      before.dropLast ++ [before.getLast hsome] ++ [seconds.getLast hseconds] ++ rest := by simp
  rw [hsplit, hfirst, hbefore, List.append_assoc _ seconds.dropLast, hsecond, hs]

theorem drop_front (front rest : Bytes) (c d : UInt8) :
    (front ++ c :: d :: rest).drop ((front ++ c :: d :: rest).length - rest.length - 2) =
      c :: d :: rest := by
  have hstart : (front ++ c :: d :: rest).length - rest.length - 2 = front.length := by
    rw [List.length_append, List.length_cons, List.length_cons]
    omega
  rw [hstart, List.drop_left]

theorem findZone_eq_findZone (rest : Bytes) : findZone rest = MetadataAgent.findZone rest := by
  have hle : (strtolEnd rest.tail).length ≤ rest.tail.length := by
    rw [← scanEnd_isLong]
    exact length_scanEnd_le isLong rest.tail
  have hsame : rest.tail.length ≤ (strtolEnd rest.tail).length ↔
      (strtolEnd rest.tail).length = rest.tail.length := by omega
  rw [findZone_eq, MetadataAgent.findZone]
  simp only [hsame]

/-- With the `strptime` of the time stamps, the scanners read what `FromString` reads. -/
theorem fromCString_eq (mktime : Tm → ℤ) (kUtcOffset : ℤ) (s : Bytes) :
    fromCString strptime (fun text => (strtod text).1) mktime kUtcOffset s =
      MetadataAgent.fromCString mktime kUtcOffset s := by
  cases hread : strptime s with
  | none =>
    unfold fromCString MetadataAgent.fromCString
    rw [hread]
    rfl
  | some read =>
    obtain ⟨tm, rest⟩ := read
    obtain ⟨front, c, d, hsplit, hd⟩ := exists_seconds stopsAfterSeconds_strptime hread
    have hdrop : s.drop (s.length - rest.length - 2) = c :: d :: rest := by
      rw [hsplit, drop_front]
    unfold fromCString MetadataAgent.fromCString
    rw [hread]
    simp only [Option.bind_eq_bind, Option.bind_some, hdrop, List.headD_cons,
      ← findZone_eq_findZone]
    cases hzone : findZone rest with
    | none => rfl
    | some zone =>
      by_cases hends : isDigit c = true ∧ zone = lit "Z"
      · obtain ⟨hc, rfl⟩ := hends
        rw [scanEnd_of_findZone hc hd hzone]
      · by_cases hc : isDigit c = true
        · have hZ : ¬zone = lit "Z" := fun hZ => hends ⟨hc, hZ⟩
          simp [hc, hZ, guard]
        · simp [hc, guard]

theorem rfc3339FromString_eq (mktime : Tm → ℤ) (kUtcOffset : ℤ) (s : Bytes) :
    rfc3339FromString strptime (fun text => (strtod text).1) mktime kUtcOffset s =
      MetadataAgent.rfc3339FromString mktime kUtcOffset s := by
  rw [rfc3339FromString, fromCString_eq, MetadataAgent.rfc3339FromString]

/-! ## Acceptance -/

/-- `strptime` reads a front of the text, and what it leaves is a zone behind two digits. -/
def Accepted (strptime : Bytes → Option (Tm × Bytes)) (s : Bytes) : Prop :=
  ∃ tm rest front c d, strptime s = some (tm, rest) ∧ s = front ++ c :: d :: rest ∧
    isDigit c = true ∧ isDigit d = true ∧ IsZone rest

section Acceptance
variable {strptime : Bytes → Option (Tm × Bytes)} {strtodValue : Bytes → ℚ} {mktime : Tm → ℤ}
  {kUtcOffset : ℤ} {s : Bytes}

theorem isSome_fromCString_iff {tm : Tm} {rest front : Bytes} {c d : UInt8}
    (hread : strptime s = some (tm, rest)) (hs : s = front ++ c :: d :: rest) :
    (fromCString strptime strtodValue mktime kUtcOffset s).isSome = true ↔
      isDigit c = true ∧ findZone rest = some (lit "Z") ∧
        (scanEnd isDouble (c :: d :: rest)).length = (lit "Z").length := by
  have hdrop : s.drop (s.length - rest.length - 2) = c :: d :: rest := by
    rw [hs, drop_front]
  unfold fromCString
  rw [hread]
  simp only [Option.bind_eq_bind, Option.bind_some, hdrop, List.headD_cons,
    Option.isSome_iff_exists, Option.bind_eq_some_iff, Option.guard_eq_some', exists_const]
  constructor
  · rintro ⟨_, hc, zone, hzone, rfl, hend, -⟩
    exact ⟨hc, hzone, hend⟩
  · rintro ⟨hc, hzone, hend⟩
    exact ⟨_, hc, lit "Z", hzone, rfl, hend, rfl⟩

theorem isSome_fromCString_iff_accepted (h : StopsAfterSeconds strptime) :
    (fromCString strptime strtodValue mktime kUtcOffset s).isSome = true ↔
      Accepted strptime s := by
  cases hread : strptime s with
  | none =>
    refine iff_of_false ?_ ?_
    · unfold fromCString
      rw [hread]
      exact Bool.false_ne_true
    · rintro ⟨tm, rest, front, c, d, hsome, -⟩
      rw [hread] at hsome
      exact absurd hsome.symm (Option.some_ne_none _)
  | some read =>
    obtain ⟨tm, rest⟩ := read
    obtain ⟨front, c, d, hsplit, hd⟩ := exists_seconds h hread
    rw [isSome_fromCString_iff hread hsplit]
    constructor
    · rintro ⟨hc, hends⟩
      exact ⟨tm, rest, front, c, d, hread, hsplit, hc, hd, (ends_agree_iff hc hd rest).mp hends⟩
    · rintro ⟨tm', rest', front', c', d', hread', hsplit', hc', -, hzone⟩
      rw [hread, Option.some.injEq, Prod.mk.injEq] at hread'
      obtain ⟨rfl, rfl⟩ := hread'
      have hsame : c = c' := by
        have hlast := congrArg (fun t => t.drop (t.length - rest.length - 2))
          (hsplit.symm.trans hsplit')
        simp only [drop_front, List.cons.injEq] at hlast
        exact hlast.1
      rw [← hsame] at hc'
      exact ⟨hc', (ends_agree_iff hc' hd rest).mpr hzone⟩

/-- A text is read as a time stamp when `strptime` leaves a zone behind two digits, and as the epoch
otherwise. -/
theorem fromString_accepts_iff (h : StopsAfterSeconds strptime) (hs : 0 ∉ s) :
    ((fromCString strptime strtodValue mktime kUtcOffset (s.takeWhile (· ≠ 0))).isSome = true ↔
        Accepted strptime s) ∧
      (¬Accepted strptime s → rfc3339FromString strptime strtodValue mktime kUtcOffset s = 0) := by
  have hwhole : s.takeWhile (· ≠ 0) = s :=
    List.takeWhile_eq_self_iff.mpr fun c hc => decide_eq_true (ne_of_mem_of_not_mem hc hs)
  rw [hwhole]
  refine ⟨isSome_fromCString_iff_accepted h, fun hnot => ?_⟩
  rw [← isSome_fromCString_iff_accepted h, Option.not_isSome_iff_eq_none] at hnot
  rw [rfc3339FromString, hwhole, hnot]
  rfl

end Acceptance

/-- White space between the point and the digits: the scanners read it, and their ends differ. -/
theorem fromString_accepts_iff_blank :
    StopsAfterSeconds strptime ∧
      ((fromCString strptime (fun text => (strtod text).1) timegm 0
            ((lit "2018-03-03T01:23:45. 6Z").takeWhile (· ≠ 0))).isSome = true ↔
          Accepted strptime (lit "2018-03-03T01:23:45. 6Z")) ∧
      (¬Accepted strptime (lit "2018-03-03T01:23:45. 6Z") →
        rfc3339FromString strptime (fun text => (strtod text).1) timegm 0
          (lit "2018-03-03T01:23:45. 6Z") = 0) :=
  ⟨stopsAfterSeconds_strptime, fromString_accepts_iff stopsAfterSeconds_strptime (by decide)⟩

end Scanning

end MetadataAgent
