import Mathlib.Data.Nat.Digits.Defs
import Mathlib.Data.Nat.Digits.Lemmas

/-! # Digits

A number is written with the digits of a base, the highest digit first. A numeral of a fixed width
and the number it denotes determine each other.

Regrouping reads digits of one number of bits and writes digits of another; the bits that do not
fill a digit are the rest. Digits and rest are determined by what was read. -/
namespace MetadataAgent.Lib
set_option autoImplicit false

/-- The number that digits denote, the highest digit first. -/
def radixValue (base : ℕ) (digits : List ℕ) : ℕ := Nat.ofDigits base digits.reverse

/-- The last `width` digits of a number. -/
def numeral (base : ℕ) : ℕ → ℕ → List ℕ
  | 0, _ => []
  | width + 1, n => numeral base width (n / base) ++ [n % base]

section Value
variable {base : ℕ}

@[simp] theorem radixValue_nil : radixValue base [] = 0 := rfl

theorem radixValue_concat (digits : List ℕ) (d : ℕ) :
    radixValue base (digits ++ [d]) = radixValue base digits * base + d := by
  rw [radixValue, List.reverse_append, List.reverse_singleton, List.singleton_append,
    Nat.ofDigits_cons, radixValue]
  ring

/-- Reading digits on top of a number that was read before. -/
theorem foldl_digits (digits : List ℕ) (n : ℕ) :
    digits.foldl (fun n d => n * base + d) n =
      n * base ^ digits.length + radixValue base digits := by
  induction digits using List.reverseRecOn with
  | nil => simp
  | append_singleton digits d ih =>
    rw [List.foldl_append, ih, List.foldl_cons, List.foldl_nil, radixValue_concat,
      List.length_append, List.length_singleton, pow_succ]
    ring

theorem radixValue_append (ds es : List ℕ) :
    radixValue base (ds ++ es) = radixValue base ds * base ^ es.length + radixValue base es := by
  rw [radixValue, List.reverse_append, Nat.ofDigits_append, List.length_reverse, radixValue,
    radixValue]
  ring

/-- Digits in groups of one width are digits of a larger base. -/
theorem radixValue_flatten {width : ℕ} {groups : List (List ℕ)}
    (h : ∀ g ∈ groups, g.length = width) :
    radixValue base groups.flatten =
      radixValue (base ^ width) (groups.map fun g => radixValue base g) := by
  induction groups using List.reverseRecOn with
  | nil => rfl
  | append_singleton groups g ih =>
    have hgroups : ∀ g ∈ groups, g.length = width := fun g hg =>
      h g (List.mem_append_left _ hg)
    have hg : g.length = width := h g (by simp)
    rw [List.flatten_append, List.flatten_singleton, radixValue_append, ih hgroups, hg,
      List.map_append, List.map_singleton, radixValue_concat]

theorem radixValue_append_zeros (digits : List ℕ) (k : ℕ) :
    radixValue base (digits ++ List.replicate k 0) = radixValue base digits * base ^ k := by
  induction k with
  | zero => simp
  | succ k ih =>
    rw [List.replicate_succ', ← List.append_assoc, radixValue_concat, ih, pow_succ]
    ring

theorem radixValue_lt (hbase : 1 < base) {digits : List ℕ} (hdigits : ∀ d ∈ digits, d < base) :
    radixValue base digits < base ^ digits.length := by
  rw [radixValue, ← List.length_reverse]
  exact Nat.ofDigits_lt_base_pow_length hbase fun d hd => hdigits d (List.mem_reverse.mp hd)

theorem radixValue_inj (hbase : 1 < base) {ds es : List ℕ} (hlength : ds.length = es.length)
    (hd : ∀ d ∈ ds, d < base) (he : ∀ e ∈ es, e < base)
    (h : radixValue base ds = radixValue base es) : ds = es := by
  have hreverse := Nat.ofDigits_inj_of_len_eq hbase
    (show ds.reverse.length = es.reverse.length by simpa using hlength)
    (fun d hmem => hd d (List.mem_reverse.mp hmem))
    (fun e hmem => he e (List.mem_reverse.mp hmem)) h
  exact List.reverse_injective hreverse

end Value

section Numeral
variable {base : ℕ}

@[simp] theorem length_numeral (width n : ℕ) : (numeral base width n).length = width := by
  induction width generalizing n with
  | zero => rfl
  | succ width ih => rw [numeral, List.length_append, ih, List.length_singleton]

theorem numeral_lt (hbase : 0 < base) (width n : ℕ) : ∀ d ∈ numeral base width n, d < base := by
  induction width generalizing n with
  | zero => simp [numeral]
  | succ width ih =>
    intro d hd
    rw [numeral, List.mem_append] at hd
    rcases hd with hfront | hlast
    · exact ih _ d hfront
    · rw [List.mem_singleton.mp hlast]
      exact Nat.mod_lt n hbase

theorem radixValue_numeral {width n : ℕ} (hn : n < base ^ width) :
    radixValue base (numeral base width n) = n := by
  induction width generalizing n with
  | zero =>
    rw [pow_zero] at hn
    rw [numeral, radixValue_nil]
    omega
  | succ width ih =>
    have hfront : n / base < base ^ width := by
      rw [pow_succ'] at hn
      exact Nat.div_lt_of_lt_mul hn
    rw [numeral, radixValue_concat, ih hfront]
    exact Nat.div_add_mod' n base

theorem numeral_radixValue (hbase : 1 < base) {digits : List ℕ} (hdigits : ∀ d ∈ digits, d < base) :
    numeral base digits.length (radixValue base digits) = digits :=
  radixValue_inj hbase (length_numeral _ _) (numeral_lt (by omega) _ _) hdigits
    (radixValue_numeral (radixValue_lt hbase hdigits))

end Numeral

/-! ## Groups -/

theorem length_flatten_of_width {width : ℕ} {groups : List (List ℕ)}
    (h : ∀ g ∈ groups, g.length = width) : groups.flatten.length = width * groups.length := by
  induction groups with
  | nil => rfl
  | cons g groups ih =>
    rw [List.flatten_cons, List.length_append, h g List.mem_cons_self,
      ih fun g hg => h g (List.mem_cons_of_mem _ hg), List.length_cons]
    ring

/-- The digits in groups of `width`, the last group filled up with zeros. -/
def zeroPadded (width : ℕ) (digits : List ℕ) : List (List ℕ) :=
  if _h : digits = [] ∨ width = 0 then []
  else (digits.take width ++ List.replicate (width - digits.length) 0) ::
    zeroPadded width (digits.drop width)
termination_by digits.length
decreasing_by
  rw [not_or] at _h
  have hpos := List.length_pos_iff.mpr _h.1
  rw [List.length_drop]
  omega

theorem length_of_mem_zeroPadded {width : ℕ} {digits g : List ℕ}
    (h : g ∈ zeroPadded width digits) : g.length = width := by
  induction digits using zeroPadded.induct width with
  | case1 digits hend =>
    rw [zeroPadded, dif_pos hend] at h
    cases h
  | case2 digits hnot ih =>
    rw [zeroPadded, dif_neg hnot, List.mem_cons] at h
    rcases h with rfl | h
    · rw [List.length_append, List.length_take, List.length_replicate]
      omega
    · exact ih h

theorem flatten_zeroPadded {width : ℕ} (hwidth : 0 < width) (digits : List ℕ) :
    ∃ p < width, (zeroPadded width digits).flatten = digits ++ List.replicate p 0 := by
  induction digits using zeroPadded.induct width with
  | case1 digits hend =>
    obtain rfl : digits = [] := hend.resolve_right (by omega)
    rw [zeroPadded, dif_pos hend]
    exact ⟨0, hwidth, rfl⟩
  | case2 digits hnot ih =>
    rw [zeroPadded, dif_neg hnot, List.flatten_cons]
    rw [not_or] at hnot
    by_cases hlast : digits.length ≤ width
    · have hpos := List.length_pos_iff.mpr hnot.1
      refine ⟨width - digits.length, by omega, ?_⟩
      rw [List.take_of_length_le hlast, List.drop_of_length_le hlast, zeroPadded,
        dif_pos (Or.inl rfl), List.flatten_nil, List.append_nil]
    · obtain ⟨p, hp, hrest⟩ := ih
      have hfull : width - digits.length = 0 := by omega
      refine ⟨p, hp, ?_⟩
      rw [hrest, hfull, List.replicate_zero, List.append_nil, ← List.append_assoc,
        List.take_append_drop]

/-- The `a`-bit digits `xs` are the `b`-bit digits `ys`, followed by `n` more bits, the number
`r`. -/
structure Regrouped (a b : ℕ) (xs ys : List ℕ) (n r : ℕ) : Prop where
  length_eq : a * xs.length = b * ys.length + n
  value_eq : radixValue (2 ^ a) xs = radixValue (2 ^ b) ys * 2 ^ n + r
  rest_lt : r < 2 ^ n

namespace Regrouped
variable {a b : ℕ} {xs ys ys' : List ℕ} {n n' r r' : ℕ}

theorem nil : Regrouped a b [] [] 0 0 := ⟨by simp, by simp, by simp⟩

/-- One more digit is read. -/
theorem read (h : Regrouped a b xs ys n r) {d : ℕ} (hd : d < 2 ^ a) :
    Regrouped a b (xs ++ [d]) ys (n + a) (r * 2 ^ a + d) where
  length_eq := by
    have hlength := h.length_eq
    rw [List.length_append, List.length_singleton, Nat.mul_add, hlength]
    omega
  value_eq := by
    rw [radixValue_concat, h.value_eq, pow_add]
    ring
  rest_lt := by
    have hrest : (r + 1) * 2 ^ a ≤ 2 ^ n * 2 ^ a := Nat.mul_le_mul_right _ h.rest_lt
    rw [pow_add]
    rw [Nat.add_mul, Nat.one_mul] at hrest
    omega

/-- The rest fills a digit. -/
theorem write (h : Regrouped a b xs ys (n + b) r) :
    Regrouped a b xs (ys ++ [r / 2 ^ n]) n (r % 2 ^ n) where
  length_eq := by
    rw [h.length_eq, List.length_append, List.length_singleton, Nat.mul_add]
    omega
  value_eq := by
    have hrest : 2 ^ n * (r / 2 ^ n) + r % 2 ^ n = r := Nat.div_add_mod r (2 ^ n)
    rw [radixValue_concat, h.value_eq, pow_add]
    nth_rewrite 1 [← hrest]
    ring
  rest_lt := Nat.mod_lt _ (Nat.two_pow_pos n)

/-- Without a rest, the digits can be regrouped back. -/
theorem symm (h : Regrouped a b xs ys 0 r) : Regrouped b a ys xs 0 0 where
  length_eq := h.length_eq.symm
  value_eq := by
    have hrest := h.rest_lt
    rw [h.value_eq, pow_zero]
    omega
  rest_lt := Nat.two_pow_pos 0

/-- With the rest padded to a digit, the digits are followed by zeros. -/
theorem pad (h : Regrouped a b xs ys n r) {p : ℕ} (hp : n + p = b) :
    Regrouped b a (ys ++ [r * 2 ^ p]) xs p 0 where
  length_eq := by
    rw [h.length_eq, List.length_append, List.length_singleton, Nat.mul_add]
    omega
  value_eq := by
    rw [radixValue_concat, h.value_eq, ← hp, pow_add]
    ring
  rest_lt := Nat.two_pow_pos p

/-- There is one way to regroup digits. -/
theorem unique (hb : 0 < b) (hys : ∀ y ∈ ys, y < 2 ^ b) (hys' : ∀ y ∈ ys', y < 2 ^ b)
    (hn : n < b) (hn' : n' < b) (h : Regrouped a b xs ys n r) (h' : Regrouped a b xs ys' n' r') :
    ys = ys' ∧ n = n' ∧ r = r' := by
  have hlengths : b * ys.length + n = b * ys'.length + n' := h.length_eq.symm.trans h'.length_eq
  have hrests : n = n' := by
    have hmod := congrArg (· % b) hlengths
    simpa [Nat.mul_add_mod, Nat.mod_eq_of_lt hn, Nat.mod_eq_of_lt hn'] using hmod
  subst hrests
  have hlength : ys.length = ys'.length := by
    have hmul : b * ys.length = b * ys'.length := by omega
    exact Nat.eq_of_mul_eq_mul_left hb hmul
  have hvalues : radixValue (2 ^ b) ys * 2 ^ n + r = radixValue (2 ^ b) ys' * 2 ^ n + r' :=
    h.value_eq.symm.trans h'.value_eq
  have hvalue : radixValue (2 ^ b) ys = radixValue (2 ^ b) ys' := by
    have hdiv := congrArg (· / 2 ^ n) hvalues
    simpa [Nat.add_comm _ r, Nat.add_comm _ r', Nat.add_mul_div_right, Nat.two_pow_pos,
      Nat.div_eq_of_lt h.rest_lt, Nat.div_eq_of_lt h'.rest_lt] using hdiv
  refine ⟨radixValue_inj (Nat.one_lt_two_pow (by omega)) hlength hys hys' hvalue, rfl, ?_⟩
  rw [hvalue] at hvalues
  omega

/-- The rest is what the last digit that was read ends with. -/
theorem last_mod {d : ℕ} (h : Regrouped a b (xs ++ [d]) ys n r) (hn : n ≤ a) :
    d % 2 ^ n = r := by
  have hvalue := congrArg (· % 2 ^ n) h.value_eq
  obtain ⟨k, rfl⟩ : ∃ k, a = k + n := ⟨a - n, by omega⟩
  rw [radixValue_concat, pow_add, ← mul_assoc] at hvalue
  simpa [Nat.mul_add_mod', Nat.mod_eq_of_lt h.rest_lt] using hvalue

/-- There is one way to write digits so that less than a digit of zeros is left. -/
theorem unique_padded {xs' : List ℕ} (hxs : ∀ x ∈ xs, x < 2 ^ a) (hxs' : ∀ x ∈ xs', x < 2 ^ a)
    (hn : n < a) (hn' : n' < a) (h : Regrouped a b xs ys n 0) (h' : Regrouped a b xs' ys n' 0) :
    xs = xs' := by
  have hlengths := h.length_eq
  have hlengths' := h'.length_eq
  have hlength : xs.length = xs'.length := by
    rcases Nat.lt_trichotomy xs.length xs'.length with hlt | heq | hgt
    · have hmul : a * (xs.length + 1) ≤ a * xs'.length := Nat.mul_le_mul_left a hlt
      rw [Nat.mul_add] at hmul
      omega
    · exact heq
    · have hmul : a * (xs'.length + 1) ≤ a * xs.length := Nat.mul_le_mul_left a hgt
      rw [Nat.mul_add] at hmul
      omega
  rw [← hlength] at hlengths'
  have hzeros : n = n' := by omega
  subst hzeros
  exact radixValue_inj (Nat.one_lt_two_pow (by omega)) hlength hxs hxs'
    (h.value_eq.trans h'.value_eq.symm)

end Regrouped

end MetadataAgent.Lib
