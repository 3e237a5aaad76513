import MetadataAgent.Bytes
import MetadataAgent.Lib.Radix
import Mathlib.Tactic.IntervalCases

/-! # base64url

`Encode` and `Decode` shift the input through a 32-bit word and take digits of the other width from
its low end. What is further up in the word has been written already and is never looked at again,
so both regroup the bits of an input of any length. -/
namespace MetadataAgent.Base64
open Lib
set_option autoImplicit false

def base64urlChars : Bytes := lit "ABCDEFGHIJKLMNOPQRSTUVWXYZabcdefghijklmnopqrstuvwxyz0123456789-_"

def base64urlChar (i : ℕ) : UInt8 := base64urlChars.getD i 0

/-! ## `Encode` -/

def codeChar (codeBuffer : BitVec 32) (codeBufferSize : ℤ) : UInt8 :=
  base64urlChar ((codeBuffer >>> codeBufferSize.toNat) &&& 0x3f).toNat

/-- The inner loop: the characters that it pushes and the size that it leaves. -/
def drain (codeBuffer : BitVec 32) (codeBufferSize : ℤ) : Bytes × ℤ :=
  if 0 ≤ codeBufferSize then
    let rest := drain codeBuffer (codeBufferSize - 6)
    (codeChar codeBuffer codeBufferSize :: rest.1, rest.2)
  else ([], codeBufferSize)
termination_by (codeBufferSize + 6).toNat
decreasing_by omega

/-- The loop over the source, and the last character. -/
def encodeLoop (result : Bytes) (codeBuffer : BitVec 32) (codeBufferSize : ℤ) : Bytes → Bytes
  | [] =>
    if codeBufferSize > -6 then result ++ [codeChar (codeBuffer <<< 8) (codeBufferSize + 8)]
    else result
  | c :: source =>
    let codeBuffer := (codeBuffer <<< 8) ||| c.toBitVec.setWidth 32
    let drained := drain codeBuffer (codeBufferSize + 8)
    encodeLoop (result ++ drained.1) codeBuffer drained.2 source

def encode (source : Bytes) : Bytes := encodeLoop [] 0 (-6) source

/-! ## `Decode` -/

/-- `T`. -/
def decodeTable : List ℤ :=
  (List.range 64).foldl (fun table i => table.set (base64urlChar i).toNat i)
    (List.replicate 256 (-1))

/-- `T[c]`; `none` is the access with a negative `char`, which is undefined. -/
def tableAt (c : UInt8) : Option ℤ := if 0x80 ≤ c then none else decodeTable[c.toNat]?

def decodeByte (val : BitVec 32) (shift : ℤ) : UInt8 :=
  UInt8.ofBitVec (((val.sshiftRight shift.toNat) &&& 0xff).setWidth 8)

def decodeLoop (result : Bytes) (val : BitVec 32) (shift : ℤ) : Bytes → Option Bytes
  | [] => some result
  | c :: source =>
    match tableAt c with
    | none => none
    | some i =>
      if i = -1 then some result
      else
        let val := (val <<< 6) + BitVec.ofInt 32 i
        let shift := shift + 6
        if 0 ≤ shift then decodeLoop (result ++ [decodeByte val shift]) val (shift - 8) source
        else decodeLoop result val shift source

def decode (source : Bytes) : Option Bytes := decodeLoop [] 0 (-8) source

/-! ## The words -/

theorem toNat_pushByte (codeBuffer : BitVec 32) (c : UInt8) :
    ((codeBuffer <<< 8) ||| c.toBitVec.setWidth 32).toNat =
      (codeBuffer.toNat * 256 + c.toNat) % 2 ^ 32 := by
  have hc : c.toNat < 2 ^ 8 := c.toNat_lt
  have hword := codeBuffer.isLt
  rw [BitVec.toNat_or, BitVec.toNat_shiftLeft, BitVec.toNat_setWidth, UInt8.toNat_toBitVec,
    Nat.mod_eq_of_lt (show c.toNat < 2 ^ 32 by omega), Nat.shiftLeft_eq]
  have hhigh : codeBuffer.toNat * 2 ^ 8 % 2 ^ 32 = (codeBuffer.toNat % 2 ^ 24) <<< 8 := by
    rw [Nat.shiftLeft_eq]
    omega
  rw [hhigh, ← Nat.shiftLeft_add_eq_or_of_lt hc, Nat.shiftLeft_eq]
  omega

theorem toNat_pushDigit (val : BitVec 32) {i : ℕ} (hi : i < 64) :
    ((val <<< 6) + BitVec.ofInt 32 i).toNat = (val.toNat * 64 + i) % 2 ^ 32 := by
  rw [BitVec.toNat_add, BitVec.toNat_shiftLeft, Nat.shiftLeft_eq]
  have hofInt : (BitVec.ofInt 32 (i : ℤ)).toNat = i := by
    rw [BitVec.ofInt_natCast, BitVec.toNat_ofNat]
    omega
  rw [hofInt]
  omega

theorem codeChar_eq (codeBuffer : BitVec 32) (size : ℕ) :
    codeChar codeBuffer size = base64urlChar (codeBuffer.toNat / 2 ^ size % 64) := by
  unfold codeChar
  rw [BitVec.toNat_and, BitVec.toNat_ushiftRight, Int.toNat_natCast, Nat.shiftRight_eq_div_pow]
  exact congrArg base64urlChar (Nat.and_two_pow_sub_one_eq_mod _ 6)

/-- The arithmetic shift fills only bits that the mask removes. -/
theorem toNat_decodeByte (val : BitVec 32) {shift : ℕ} (hshift : shift ≤ 24) :
    (decodeByte val shift).toNat = val.toNat / 2 ^ shift % 256 := by
  have hbits : (((val.sshiftRight shift) &&& 0xff).setWidth 8) = (val >>> shift).setWidth 8 := by
    apply BitVec.eq_of_getLsbD_eq
    intro i hi
    have hmask : (0xff : BitVec 32).getLsbD i = true := by
      interval_cases i <;> rfl
    rw [BitVec.getLsbD_setWidth, BitVec.getLsbD_setWidth, BitVec.getLsbD_and, hmask,
      BitVec.getLsbD_sshiftRight, BitVec.getLsbD_ushiftRight]
    have hin : ¬ 32 ≤ i := by omega
    have hlow : shift + i < 32 := by omega
    simp [hin, hlow]
  rw [decodeByte, Int.toNat_natCast, hbits, UInt8.toNat_ofBitVec, BitVec.toNat_setWidth,
    BitVec.toNat_ushiftRight, Nat.shiftRight_eq_div_pow]

/-! ## The live bits of `Encode` -/

/-- The `n` low bits of the word are the bits that were read and are in no character yet. -/
structure Encoding (xs codes : List ℕ) (n : ℕ) (codeBuffer : BitVec 32) : Prop where
  codes_lt : ∀ i ∈ codes, i < 64
  regrouped : Regrouped 8 6 xs codes n (codeBuffer.toNat % 2 ^ n)

theorem concat_lt {codes : List ℕ} {d : ℕ} (hcodes : ∀ i ∈ codes, i < 64) (hd : d < 64) :
    ∀ i ∈ codes ++ [d], i < 64 := by
  rw [List.forall_mem_append, List.forall_mem_singleton]
  exact ⟨hcodes, hd⟩

/-- Writing a character takes the six highest of the live bits. -/
theorem codeChar_encoding {xs codes : List ℕ} {k : ℕ} {codeBuffer : BitVec 32}
    (h : Encoding xs codes (k + 6) codeBuffer) :
    Encoding xs (codes ++ [codeBuffer.toNat / 2 ^ k % 64]) k codeBuffer where
  codes_lt := concat_lt h.codes_lt (Nat.mod_lt _ (by omega))
  regrouped := by
    have hwrite := h.regrouped.write
    rw [pow_add, Nat.mod_mul_right_div_self, Nat.mod_mul_right_mod] at hwrite
    exact hwrite

theorem drain_encoding {xs : List ℕ} {codeBuffer : BitVec 32} (n : ℕ) (codes : List ℕ)
    (h : Encoding xs codes n codeBuffer) :
    ∃ (more : List ℕ) (m : ℕ), drain codeBuffer (n - 6) = (more.map base64urlChar, (m : ℤ) - 6) ∧
      m < 6 ∧ Encoding xs (codes ++ more) m codeBuffer := by
  induction n using Nat.strong_induction_on generalizing codes with
  | _ n ih =>
    rw [drain]
    by_cases hsize : (0 : ℤ) ≤ n - 6
    · rw [if_pos hsize]
      obtain ⟨k, rfl⟩ : ∃ k, n = k + 6 := ⟨n - 6, by omega⟩
      obtain ⟨more, m, hdrain, hm, hencoding⟩ := ih k (by omega) _ (codeChar_encoding h)
      have hsub : (((k + 6 : ℕ) : ℤ) - 6) = k := by omega
      refine ⟨codeBuffer.toNat / 2 ^ k % 64 :: more, m, ?_, hm, ?_⟩
      · rw [hsub, hdrain, codeChar_eq]
        rfl
      · rw [List.append_assoc] at hencoding
        exact hencoding
    · rw [if_neg hsize]
      refine ⟨[], n, rfl, by omega, ?_⟩
      rw [List.append_nil]
      exact h

/-- Reading a byte moves the live bits up; the bits that leave the word are not live. -/
theorem pushByte_encoding {xs codes : List ℕ} {n : ℕ} {codeBuffer : BitVec 32} (hn : n < 6)
    (h : Encoding xs codes n codeBuffer) (c : UInt8) :
    Encoding (xs ++ [c.toNat]) codes (n + 8)
      ((codeBuffer <<< 8) ||| c.toBitVec.setWidth 32) where
  codes_lt := h.codes_lt
  regrouped := by
    have hc : c.toNat < 2 ^ 8 := c.toNat_lt
    have hlive : ((codeBuffer <<< 8) ||| c.toBitVec.setWidth 32).toNat % 2 ^ (n + 8) =
        codeBuffer.toNat % 2 ^ n * 2 ^ 8 + c.toNat := by
      rw [toNat_pushByte]
      interval_cases n <;> omega
    rw [hlive]
    exact h.regrouped.read hc

/-- The last character is padded with zeros. -/
theorem codeChar_last (codeBuffer : BitVec 32) {n : ℕ} (hpos : 0 < n) (hn : n < 6) :
    codeChar (codeBuffer <<< 8) (n + 2 : ℕ) =
      base64urlChar (codeBuffer.toNat % 2 ^ n * 2 ^ (6 - n)) := by
  rw [codeChar_eq, BitVec.toNat_shiftLeft, Nat.shiftLeft_eq]
  congr 1
  interval_cases n <;> omega

theorem encodeLoop_regrouped (source : Bytes) {xs codes : List ℕ} {n : ℕ} {codeBuffer : BitVec 32}
    (hn : n < 6) (h : Encoding xs codes n codeBuffer) :
    ∃ (digits : List ℕ) (p : ℕ),
      encodeLoop (codes.map base64urlChar) codeBuffer (n - 6) source = digits.map base64urlChar ∧
        (∀ i ∈ digits, i < 64) ∧ p < 6 ∧
          Regrouped 6 8 digits (xs ++ source.map UInt8.toNat) p 0 := by
  induction source generalizing xs codes n codeBuffer with
  | nil =>
    rw [encodeLoop, List.map_nil, List.append_nil]
    by_cases hpos : 0 < n
    · have hsize : ((n : ℤ) - 6 + 8) = (n + 2 : ℕ) := by omega
      have hlast : codeBuffer.toNat % 2 ^ n * 2 ^ (6 - n) < 64 := by
        interval_cases n <;> omega
      refine ⟨codes ++ [codeBuffer.toNat % 2 ^ n * 2 ^ (6 - n)], 6 - n, ?_,
        concat_lt h.codes_lt hlast, by omega, h.regrouped.pad (by omega)⟩
      rw [if_pos (show (n : ℤ) - 6 > -6 by omega), hsize, codeChar_last codeBuffer hpos hn,
        List.map_append, List.map_singleton]
    · have hzero : n = 0 := by omega
      subst hzero
      exact ⟨codes, 0, rfl, h.codes_lt, by omega, h.regrouped.symm⟩
  | cons c source ih =>
    have hbyte := pushByte_encoding hn h c
    obtain ⟨more, m, hdrain, hm, hmore⟩ := drain_encoding (n + 8) codes hbyte
    have hsize : ((n : ℤ) - 6 + 8) = ((n + 8 : ℕ) : ℤ) - 6 := by omega
    obtain ⟨digits, p, hloop, hdigits, hp, hregrouped⟩ := ih hm hmore
    refine ⟨digits, p, ?_, hdigits, hp, ?_⟩
    · rw [encodeLoop, hsize, hdrain, ← hloop, List.map_append]
    · rw [List.append_assoc] at hregrouped
      exact hregrouped

theorem encode_regrouped (source : Bytes) :
    ∃ (digits : List ℕ) (p : ℕ), encode source = digits.map base64urlChar ∧
      (∀ i ∈ digits, i < 64) ∧ p < 6 ∧
        Regrouped 6 8 digits (source.map UInt8.toNat) p 0 := by
  have hstart : Encoding [] [] 0 0 := ⟨by simp, Regrouped.nil⟩
  exact encodeLoop_regrouped source (by omega) hstart

/-! ## The live bits of `Decode` -/

theorem length_base64urlChars : base64urlChars.length = 64 := by
  decide +kernel

theorem idxOf_base64urlChar : ∀ i < 64, base64urlChars.idxOf (base64urlChar i) = i := by
  decide +kernel

theorem base64urlChar_mem {i : ℕ} (hi : i < 64) : base64urlChar i ∈ base64urlChars := by
  rw [← List.idxOf_lt_length_iff, idxOf_base64urlChar i hi, length_base64urlChars]
  exact hi

theorem lt_of_mem_base64urlChars {c : UInt8} (h : c ∈ base64urlChars) : c.toNat < 128 := by
  have hall : base64urlChars.all (fun c => c.toNat < 128) = true := by
    decide +kernel
  exact of_decide_eq_true (List.all_eq_true.mp hall c h)

section Table
variable {α : Type} (index : ℕ → ℕ) (value : ℕ → α) (table : List α)

theorem length_foldl_set (k : ℕ) :
    ((List.range k).foldl (fun table i => table.set (index i) (value i)) table).length =
      table.length := by
  induction k with
  | zero => rfl
  | succ k ih =>
    rw [List.range_succ, List.foldl_append, List.foldl_cons, List.foldl_nil, List.length_set, ih]

/-- An element that is never set is the one of the table before. -/
theorem getElem?_foldl_set_of_ne {k n : ℕ} (h : ∀ i < k, index i ≠ n) :
    ((List.range k).foldl (fun table i => table.set (index i) (value i)) table)[n]? =
      table[n]? := by
  induction k with
  | zero => rfl
  | succ k ih =>
    rw [List.range_succ, List.foldl_append, List.foldl_cons, List.foldl_nil,
      List.getElem?_set_ne (h k (Nat.lt_succ_self k))]
    exact ih fun i hi => h i (Nat.lt_succ_of_lt hi)

/-- An element that is set once is what it is set to. -/
theorem getElem?_foldl_set {k i : ℕ} (hi : i < k) (honce : ∀ j < k, index j = index i → j = i)
    (hlength : index i < table.length) :
    ((List.range k).foldl (fun table i => table.set (index i) (value i)) table)[index i]? =
      some (value i) := by
  induction k with
  | zero => omega
  | succ k ih =>
    rw [List.range_succ, List.foldl_append, List.foldl_cons, List.foldl_nil]
    by_cases hlast : i = k
    · rw [hlast] at hlength ⊢
      rw [List.getElem?_set_self]
      rwa [length_foldl_set]
    · have hne : index k ≠ index i := fun heq => hlast (honce k (Nat.lt_succ_self k) heq).symm
      rw [List.getElem?_set_ne hne]
      exact ih (by omega) fun j hj => honce j (Nat.lt_succ_of_lt hj)

end Table

theorem decodeTable_base64urlChar {i : ℕ} (hi : i < 64) :
    decodeTable[(base64urlChar i).toNat]? = some (i : ℤ) := by
  refine getElem?_foldl_set (fun i => (base64urlChar i).toNat) (fun i : ℕ => (i : ℤ))
    (List.replicate 256 (-1)) hi ?_ ?_
  · intro j hj hsame
    rw [← idxOf_base64urlChar j hj, UInt8.toNat_inj.mp hsame, idxOf_base64urlChar i hi]
  · rw [List.length_replicate]
    exact (base64urlChar i).toNat_lt

theorem decodeTable_of_not_mem {c : UInt8} (h : c ∉ base64urlChars) :
    decodeTable[c.toNat]? = some (-1) := by
  have hnever : ∀ i < 64, (base64urlChar i).toNat ≠ c.toNat := by
    intro i hi hsame
    rw [← UInt8.toNat_inj.mp hsame] at h
    exact h (base64urlChar_mem hi)
  refine (getElem?_foldl_set_of_ne (fun i => (base64urlChar i).toNat) (fun i : ℕ => (i : ℤ))
    (List.replicate 256 (-1)) hnever).trans ?_
  rw [List.getElem?_replicate, if_pos c.toNat_lt]

theorem tableAt_base64urlChar {i : ℕ} (hi : i < 64) :
    tableAt (base64urlChar i) = some (i : ℤ) := by
  have hlt := lt_of_mem_base64urlChars (base64urlChar_mem hi)
  have hascii : ¬(0x80 ≤ base64urlChar i) := by
    rw [UInt8.le_iff_toNat_le, not_le]
    exact hlt
  rw [tableAt, if_neg hascii, decodeTable_base64urlChar hi]

theorem pushDigit_regrouped {codes ys : List ℕ} {n : ℕ} {val : BitVec 32} (hn : n < 8)
    (h : Regrouped 6 8 codes ys n (val.toNat % 2 ^ n)) {i : ℕ} (hi : i < 64) :
    Regrouped 6 8 (codes ++ [i]) ys (n + 6)
      (((val <<< 6) + BitVec.ofInt 32 i).toNat % 2 ^ (n + 6)) := by
  have hlive : ((val <<< 6) + BitVec.ofInt 32 i).toNat % 2 ^ (n + 6) =
      val.toNat % 2 ^ n * 2 ^ 6 + i := by
    rw [toNat_pushDigit val hi]
    interval_cases n <;> omega
  rw [hlive]
  exact h.read hi

theorem decodeByte_regrouped {codes ys : List ℕ} {k : ℕ} {val : BitVec 32} (hk : k ≤ 24)
    (h : Regrouped 6 8 codes ys (k + 8) (val.toNat % 2 ^ (k + 8))) :
    Regrouped 6 8 codes (ys ++ [(decodeByte val k).toNat]) k (val.toNat % 2 ^ k) := by
  have hwrite := h.write
  rw [pow_add, Nat.mod_mul_right_div_self, Nat.mod_mul_right_mod] at hwrite
  rw [toNat_decodeByte val hk]
  exact hwrite

theorem decodeLoop_regrouped (digits : List ℕ) (hdigits : ∀ i ∈ digits, i < 64) {codes : List ℕ}
    {result : Bytes} {n : ℕ} {val : BitVec 32} (hn : n < 8)
    (h : Regrouped 6 8 codes (result.map UInt8.toNat) n (val.toNat % 2 ^ n)) :
    ∃ (out : Bytes) (m r : ℕ),
      decodeLoop result val (n - 8) (digits.map base64urlChar) = some out ∧ m < 8 ∧
        Regrouped 6 8 (codes ++ digits) (out.map UInt8.toNat) m r := by
  induction digits generalizing codes result n val with
  | nil =>
    refine ⟨result, n, val.toNat % 2 ^ n, rfl, hn, ?_⟩
    rw [List.append_nil]
    exact h
  | cons i digits ih =>
    have hi : i < 64 := hdigits i List.mem_cons_self
    have hrest : ∀ j ∈ digits, j < 64 := fun j hj => hdigits j (List.mem_cons_of_mem i hj)
    have hdigit := pushDigit_regrouped hn h hi
    have hnone : ¬ (i : ℤ) = -1 := by omega
    have happend : codes ++ i :: digits = codes ++ [i] ++ digits := by simp
    rw [List.map_cons, decodeLoop, tableAt_base64urlChar hi, happend]
    simp only [if_neg hnone]
    by_cases hfull : (0 : ℤ) ≤ n - 8 + 6
    · obtain ⟨k, rfl⟩ : ∃ k, n = k + 2 := ⟨n - 2, by omega⟩
      have hshift : (((k + 2 : ℕ) : ℤ) - 8 + 6) = k := by omega
      have hbyte := decodeByte_regrouped (show k ≤ 24 by omega) hdigit
      rw [hshift, if_pos (show (0 : ℤ) ≤ k by omega)]
      apply ih hrest (show k < 8 by omega)
      rw [List.map_append, List.map_singleton]
      exact hbyte
    · have hshift : ((n : ℤ) - 8 + 6) = ((n + 6 : ℕ) : ℤ) - 8 := by omega
      rw [if_neg hfull, hshift]
      exact ih hrest (by omega) hdigit

theorem decode_regrouped (digits : List ℕ) (hdigits : ∀ i ∈ digits, i < 64) :
    ∃ (out : Bytes) (m r : ℕ), decode (digits.map base64urlChar) = some out ∧ m < 8 ∧
      Regrouped 6 8 digits (out.map UInt8.toNat) m r := by
  have hstart : Regrouped 6 8 [] (([] : Bytes).map UInt8.toNat) 0 ((0 : BitVec 32).toNat % 2 ^ 0) :=
    Regrouped.nil
  exact decodeLoop_regrouped digits hdigits (by omega) hstart

/-! ## Canonical strings -/

/-- The bits of a string of this many characters that fill no byte; its last character has them. -/
def unusedBits (length : ℕ) : ℕ := 6 * length % 8

structure Canonical (t : Bytes) : Prop where
  alphabet : ∀ c ∈ t, c ∈ base64urlChars
  length_ne : t.length % 4 ≠ 1
  unused_zero : ∀ c ∈ t.getLast?, base64urlChars.idxOf c % 2 ^ unusedBits t.length = 0

theorem digits_of_alphabet {t : Bytes} (halphabet : ∀ c ∈ t, c ∈ base64urlChars) :
    ∃ digits : List ℕ, t = digits.map base64urlChar ∧ ∀ i ∈ digits, i < 64 := by
  refine ⟨t.map base64urlChars.idxOf, ?_, ?_⟩
  · have hchar : ∀ c ∈ t, base64urlChar (base64urlChars.idxOf c) = c := by
      intro c hc
      have hin := List.idxOf_lt_length_of_mem (halphabet c hc)
      rw [base64urlChar, List.getD_eq_getElem?_getD, List.getElem?_eq_getElem hin,
        List.getElem_idxOf hin]
      rfl
    have hmap : t.map (base64urlChar ∘ base64urlChars.idxOf) = t.map id :=
      List.map_congr_left hchar
    rw [List.map_map, hmap, List.map_id]
  · intro i hi
    obtain ⟨c, hc, rfl⟩ := List.mem_map.mp hi
    rw [← length_base64urlChars]
    exact List.idxOf_lt_length_of_mem (halphabet c hc)

theorem canonical_iff {digits ys : List ℕ} {n r : ℕ} (hdigits : ∀ i ∈ digits, i < 64) (hn : n < 8)
    (h : Regrouped 6 8 digits ys n r) :
    Canonical (digits.map base64urlChar) ↔ n < 6 ∧ r = 0 := by
  have hlength := h.length_eq
  have hbits : unusedBits (digits.map base64urlChar).length = n := by
    rw [List.length_map, unusedBits, hlength]
    omega
  rcases List.eq_nil_or_concat' digits with rfl | ⟨front, d, rfl⟩
  · have hzero : n = 0 := by
      rw [List.length_nil] at hlength
      omega
    have hrest := h.rest_lt
    rw [hzero] at hrest ⊢
    refine iff_of_true ⟨by simp, by simp, by simp⟩ ⟨by omega, by omega⟩
  · have hd : d < 64 := hdigits d (by simp)
    have hlast : ((front ++ [d]).map base64urlChar).getLast? = some (base64urlChar d) := by simp
    refine ⟨fun hcanonical => ?_, fun hrest => ⟨?_, ?_, ?_⟩⟩
    · have hne := hcanonical.length_ne
      rw [List.length_map] at hne
      have hshort : n < 6 := by omega
      have hzero := hcanonical.unused_zero _ hlast
      rw [hbits, idxOf_base64urlChar d hd, h.last_mod (by omega)] at hzero
      exact ⟨hshort, hzero⟩
    · intro c hc
      obtain ⟨i, hi, rfl⟩ := List.mem_map.mp hc
      exact base64urlChar_mem (hdigits i hi)
    · rw [List.length_map]
      omega
    · intro c hc
      rw [hlast] at hc
      rw [← Option.some_inj.mp hc, hbits, idxOf_base64urlChar d hd, h.last_mod (by omega)]
      exact hrest.2

/-- `Encode` and `Decode` are inverse to each other on byte strings and canonical strings. -/
theorem canonical_bijection :
    (∀ s, Canonical (encode s) ∧ decode (encode s) = some s) ∧
      ∀ t, Canonical t → ∃ s, decode t = some s ∧ encode s = t := by
  refine ⟨?_, ?_⟩
  · intro s
    obtain ⟨digits, p, hencode, hdigits, hp, hregrouped⟩ := encode_regrouped s
    obtain ⟨out, m, r, hdecode, hm, hback⟩ := decode_regrouped digits hdigits
    have hbyte : ∀ bytes : Bytes, ∀ y ∈ bytes.map UInt8.toNat, y < 2 ^ 8 := by
      intro bytes y hy
      obtain ⟨c, _, rfl⟩ := List.mem_map.mp hy
      exact c.toNat_lt
    have hsame := (hback.unique (by omega) (hbyte out) (hbyte s) hm (by omega) hregrouped).1
    have hout : out = s := List.map_injective_iff.mpr (fun _ _ => UInt8.toNat_inj.mp) hsame
    rw [hencode, hdecode, hout]
    exact ⟨(canonical_iff hdigits (by omega) hregrouped).mpr ⟨hp, rfl⟩, rfl⟩
  · intro t ht
    obtain ⟨digits, rfl, hdigits⟩ := digits_of_alphabet ht.alphabet
    obtain ⟨out, m, r, hdecode, hm, hback⟩ := decode_regrouped digits hdigits
    obtain ⟨hshort, hzero⟩ := (canonical_iff hdigits hm hback).mp ht
    subst hzero
    obtain ⟨again, p, hencode, hagain, hp, hregrouped⟩ := encode_regrouped out
    have hsame := Regrouped.unique_padded hagain hdigits hp hshort hregrouped hback
    exact ⟨out, hdecode, by rw [hencode, hsame]⟩

/-! ## The bits of the source -/

/-- The bits of the source, those of a byte from the highest to the lowest. -/
def bitString (source : Bytes) : List ℕ := source.flatMap fun c => numeral 2 8 c.toNat

/-- The encoding by bits: groups of six, the last one filled up with zeros, and a character of the
alphabet for each. -/
def bitEncode (source : Bytes) : Bytes :=
  (zeroPadded 6 (bitString source)).map fun group => base64urlChar (radixValue 2 group)

theorem length_bitString (source : Bytes) : (bitString source).length = 8 * source.length := by
  induction source with
  | nil => rfl
  | cons c source ih =>
    rw [bitString, List.flatMap_cons, List.length_append, length_numeral, ← bitString, ih,
      List.length_cons]
    omega

theorem bit_of_mem_bitString {source : Bytes} {b : ℕ} (h : b ∈ bitString source) : b < 2 := by
  obtain ⟨c, _, hb⟩ := List.mem_flatMap.mp h
  exact numeral_lt (by omega) 8 c.toNat b hb

theorem radixValue_bitString (source : Bytes) :
    radixValue 2 (bitString source) = radixValue (2 ^ 8) (source.map UInt8.toNat) := by
  have hbytes : (source.map fun c => numeral 2 8 c.toNat).map (fun g => radixValue 2 g) =
      source.map UInt8.toNat := by
    rw [List.map_map]
    refine List.map_congr_left fun c _ => ?_
    exact radixValue_numeral c.toNat_lt
  have hwidth : ∀ g ∈ source.map fun c => numeral 2 8 c.toNat, g.length = 8 := by
    intro g hg
    obtain ⟨c, _, rfl⟩ := List.mem_map.mp hg
    exact length_numeral 8 c.toNat
  rw [bitString, List.flatMap_def, radixValue_flatten hwidth, hbytes]

/-- The groups of six bits are the bytes regrouped. -/
theorem groups_regrouped (source : Bytes) :
    ∃ p < 6, Regrouped 6 8 ((zeroPadded 6 (bitString source)).map fun g => radixValue 2 g)
      (source.map UInt8.toNat) p 0 := by
  obtain ⟨p, hp, hflatten⟩ := flatten_zeroPadded (show 0 < 6 by omega) (bitString source)
  have hwidth : ∀ g ∈ zeroPadded 6 (bitString source), g.length = 6 := fun g hg =>
    length_of_mem_zeroPadded hg
  refine ⟨p, hp, ?_, ?_, Nat.two_pow_pos p⟩
  · have hlength := congrArg List.length hflatten
    rw [length_flatten_of_width hwidth, List.length_append, List.length_replicate,
      length_bitString] at hlength
    rw [List.length_map, List.length_map]
    omega
  · rw [← radixValue_flatten hwidth, hflatten, radixValue_append_zeros, radixValue_bitString]
    rfl

theorem group_lt (source : Bytes) :
    ∀ i ∈ (zeroPadded 6 (bitString source)).map fun g => radixValue 2 g, i < 2 ^ 6 := by
  intro i hi
  obtain ⟨g, hg, rfl⟩ := List.mem_map.mp hi
  have hlength := length_of_mem_zeroPadded hg
  rw [← hlength]
  refine radixValue_lt (by omega) fun b hb => ?_
  obtain ⟨p, _, hflatten⟩ := flatten_zeroPadded (show 0 < 6 by omega) (bitString source)
  have hmem : b ∈ (zeroPadded 6 (bitString source)).flatten := List.mem_flatten.mpr ⟨g, hg, hb⟩
  rw [hflatten, List.mem_append, List.mem_replicate] at hmem
  rcases hmem with hbit | ⟨_, rfl⟩
  · exact bit_of_mem_bitString hbit
  · omega

/-- `Encode` is the encoding by bits, without padding characters. -/
theorem encode_eq_bitEncode (source : Bytes) :
    encode source = bitEncode source ∧ (encode source).length = (4 * source.length + 2) / 3 := by
  obtain ⟨digits, p, hencode, hdigits, hp, hregrouped⟩ := encode_regrouped source
  obtain ⟨q, hq, hgroups⟩ := groups_regrouped source
  have hsame := Regrouped.unique_padded hdigits (group_lt source) hp hq hregrouped hgroups
  have hlength := hregrouped.length_eq
  rw [List.length_map] at hlength
  constructor
  · rw [hencode, hsame, List.map_map, bitEncode]
    rfl
  · rw [hencode, List.length_map]
    omega

/-! ## Undefined behaviour of `Decode` -/

/-- A `char` of this byte, signed, as an index of `std::vector`. -/
def charIndex (c : UInt8) : ℕ := (c.toBitVec.signExtend 64).toNat

/-- `T[index]`; `none` is an access out of range. -/
def tableGet (index : ℕ) : Option ℤ := if index < 256 then decodeTable[index]? else none

/-- An access to the table, or a new value of `val`. -/
inductive DecodeStep where
  | access (index : ℕ)
  | assign (val : ℤ)
  deriving DecidableEq

/-- What the loop of `Decode` does, with exact values; an access out of range ends it. -/
def decodeSteps (val : ℤ) : Bytes → List DecodeStep
  | [] => []
  | c :: source =>
    match tableGet (charIndex c) with
    | none => [.access (charIndex c)]
    | some i =>
      if i = -1 then [.access (charIndex c)]
      else
        .access (charIndex c) :: .access (charIndex c) :: .assign (val * 64 + i) ::
          decodeSteps (val * 64 + i) source

/-- The access is within the table, or the value is an `int`. -/
def DecodeStep.Defined : DecodeStep → Prop
  | .access index => index < 256
  | .assign val => -2 ^ 31 ≤ val ∧ val < 2 ^ 31

def DecodeDefined (source : Bytes) : Prop := ∀ step ∈ decodeSteps 0 source, step.Defined

def inAlphabet (c : UInt8) : Bool := base64urlChars.idxOf c < 64

/-- The number that the characters of the alphabet at the front denote. -/
def frontValue (source : Bytes) : ℕ :=
  radixValue 64 ((source.takeWhile inAlphabet).map base64urlChars.idxOf)

/-- The first byte that is not in the alphabet is an ASCII character, and those before it denote
an `int`. -/
structure Short (source : Bytes) : Prop where
  stop : ∀ c, (source.dropWhile inAlphabet).head? = some c → c.toNat < 128
  value : frontValue source < 2 ^ 31

theorem inAlphabet_iff (c : UInt8) : inAlphabet c = true ↔ c ∈ base64urlChars := by
  rw [inAlphabet, decide_eq_true_eq, ← length_base64urlChars, List.idxOf_lt_length_iff]

theorem base64urlChar_idxOf {c : UInt8} (h : c ∈ base64urlChars) :
    base64urlChar (base64urlChars.idxOf c) = c := by
  have hlt := List.idxOf_lt_length_iff.mpr h
  rw [base64urlChar, List.getD_eq_getElem?_getD, List.getElem?_eq_getElem hlt, Option.getD_some,
    List.getElem_idxOf hlt]

theorem decodeTable_eq (c : UInt8) : decodeTable[c.toNat]? =
    some (if inAlphabet c then (base64urlChars.idxOf c : ℤ) else -1) := by
  by_cases hmem : c ∈ base64urlChars
  · have hlt := List.idxOf_lt_length_iff.mpr hmem
    rw [length_base64urlChars] at hlt
    have hread := decodeTable_base64urlChar hlt
    rw [base64urlChar_idxOf hmem] at hread
    rw [hread, if_pos ((inAlphabet_iff c).mpr hmem)]
  · rw [decodeTable_of_not_mem hmem, if_neg fun h => hmem ((inAlphabet_iff c).mp h)]

theorem charIndex_of_lt {c : UInt8} (h : c.toNat < 128) : charIndex c = c.toNat := by
  have hall : ∀ n < 128, charIndex (UInt8.ofNat n) = n := by
    decide +kernel
  have hc := hall c.toNat h
  rwa [UInt8.ofNat_toNat] at hc

theorem charIndex_of_le {c : UInt8} (h : 128 ≤ c.toNat) : 256 ≤ charIndex c := by
  have hall : ∀ n < 256, 128 ≤ n → 256 ≤ charIndex (UInt8.ofNat n) := by
    decide +kernel
  have hc := hall c.toNat c.toNat_lt h
  rwa [UInt8.ofNat_toNat] at hc

theorem charIndex_lt_iff (c : UInt8) : charIndex c < 256 ↔ c.toNat < 128 := by
  by_cases hc : c.toNat < 128
  · rw [charIndex_of_lt hc]
    omega
  · have hbig := charIndex_of_le (not_lt.mp hc)
    omega

theorem tableGet_charIndex (c : UInt8) : tableGet (charIndex c) =
    if c.toNat < 128 then
      some (if inAlphabet c then (base64urlChars.idxOf c : ℤ) else -1)
    else none := by
  unfold tableGet
  by_cases hc : c.toNat < 128
  · rw [if_pos hc, if_pos ((charIndex_lt_iff c).mpr hc), charIndex_of_lt hc, decodeTable_eq c]
  · rw [if_neg hc, if_neg fun hlt => hc ((charIndex_lt_iff c).mp hlt)]

theorem lt_of_inAlphabet {c : UInt8} (h : inAlphabet c = true) : c.toNat < 128 :=
  lt_of_mem_base64urlChars ((inAlphabet_iff c).mp h)

theorem decodeSteps_of_inAlphabet {c : UInt8} (val : ℤ) (source : Bytes)
    (h : inAlphabet c = true) :
    decodeSteps val (c :: source) =
      .access (charIndex c) :: .access (charIndex c) ::
        .assign (val * 64 + base64urlChars.idxOf c) ::
          decodeSteps (val * 64 + base64urlChars.idxOf c) source := by
  rw [decodeSteps, tableGet_charIndex, if_pos (lt_of_inAlphabet h), if_pos h]
  simp only
  rw [if_neg (by omega)]

theorem decodeSteps_of_not_inAlphabet {c : UInt8} (val : ℤ) (source : Bytes)
    (h : inAlphabet c = false) : decodeSteps val (c :: source) = [.access (charIndex c)] := by
  rw [decodeSteps, tableGet_charIndex]
  by_cases hc : c.toNat < 128
  · simp [hc, h]
  · simp [hc]

theorem tableGet_eq_tableAt (c : UInt8) : tableGet (charIndex c) = tableAt c := by
  have hle : (0x80 ≤ c) ↔ ¬ c.toNat < 128 := by
    rw [UInt8.le_iff_toNat_le, not_lt]
    rfl
  unfold tableGet tableAt
  by_cases hc : c.toNat < 128
  · rw [if_pos ((charIndex_lt_iff c).mpr hc), if_neg (hle.not.mpr (not_not.mpr hc)),
      charIndex_of_lt hc]
  · rw [if_neg fun hlt => hc ((charIndex_lt_iff c).mp hlt), if_pos (hle.mpr hc)]

/-- The steps are those of the loop: it has no result when an access is out of range. -/
theorem decodeLoop_eq_none_iff (source result : Bytes) (val : BitVec 32) (shift exact : ℤ) :
    decodeLoop result val shift source = none ↔
      ∃ index, .access index ∈ decodeSteps exact source ∧ 256 ≤ index := by
  induction source generalizing result val shift exact with
  | nil => simp [decodeLoop, decodeSteps]
  | cons c source ih =>
    by_cases hindex : charIndex c < 256
    · obtain ⟨i, hi⟩ : ∃ i, tableGet (charIndex c) = some i := by
        rw [tableGet_charIndex, if_pos ((charIndex_lt_iff c).mp hindex)]
        exact ⟨_, rfl⟩
      rw [decodeLoop, decodeSteps, ← tableGet_eq_tableAt, hi]
      simp only
      by_cases hend : i = -1
      · simp [hend, hindex]
      · rw [if_neg hend, if_neg hend]
        have hrest : (∃ index, .access index ∈ DecodeStep.access (charIndex c) ::
              .access (charIndex c) :: .assign (exact * 64 + i) ::
                decodeSteps (exact * 64 + i) source ∧ 256 ≤ index) ↔
            ∃ index, .access index ∈ decodeSteps (exact * 64 + i) source ∧ 256 ≤ index := by
          constructor
          · rintro ⟨index, hmem, hle⟩
            have hne : index ≠ charIndex c := by omega
            simp only [List.mem_cons, DecodeStep.access.injEq, hne, reduceCtorEq, false_or] at hmem
            exact ⟨index, hmem, hle⟩
          · rintro ⟨index, hmem, hle⟩
            exact ⟨index, by simp [hmem], hle⟩
        rw [hrest]
        split
        · exact ih _ _ _ _
        · exact ih _ _ _ _
    · have hnone : tableGet (charIndex c) = none := if_neg hindex
      rw [decodeLoop, decodeSteps, ← tableGet_eq_tableAt, hnone]
      simpa using hindex

theorem frontValue_cons_of_inAlphabet {c : UInt8} (h : inAlphabet c = true) (source : Bytes) :
    frontValue (c :: source) =
      base64urlChars.idxOf c * 64 ^ (source.takeWhile inAlphabet).length + frontValue source := by
  have hsingle : radixValue 64 [base64urlChars.idxOf c] = base64urlChars.idxOf c :=
    Nat.ofDigits_singleton
  rw [frontValue, List.takeWhile_cons_of_pos h, List.map_cons, ← List.singleton_append,
    radixValue_append, List.length_map, hsingle, frontValue]

/-- From a value, every step is defined exactly when the last value is an `int` and the byte that
ends the loop is ASCII. -/
theorem decodeSteps_defined_iff (source : Bytes) (val : ℕ) (hval : val < 2 ^ 31) :
    (∀ step ∈ decodeSteps val source, step.Defined) ↔
      (∀ c, (source.dropWhile inAlphabet).head? = some c → c.toNat < 128) ∧
        val * 64 ^ (source.takeWhile inAlphabet).length + frontValue source < 2 ^ 31 := by
  induction source generalizing val with
  | nil => simpa [decodeSteps, frontValue] using hval
  | cons c source ih =>
    cases hc : inAlphabet c with
    | false =>
      have hneg : ¬inAlphabet c = true := Bool.eq_false_iff.mp hc
      rw [decodeSteps_of_not_inAlphabet _ _ hc, frontValue, List.takeWhile_cons_of_neg hneg,
        List.dropWhile_cons_of_neg hneg]
      simp only [List.forall_mem_singleton, DecodeStep.Defined, charIndex_lt_iff, List.head?_cons,
        Option.some.injEq, forall_eq', List.length_nil, pow_zero, mul_one, List.map_nil,
        radixValue_nil, add_zero, hval, and_true]
    | true =>
      have hascii := (charIndex_lt_iff c).mpr (lt_of_inAlphabet hc)
      have hfront : val * 64 ^ ((c :: source).takeWhile inAlphabet).length +
            frontValue (c :: source) =
          (val * 64 + base64urlChars.idxOf c) * 64 ^ (source.takeWhile inAlphabet).length +
            frontValue source := by
        rw [frontValue_cons_of_inAlphabet hc, List.takeWhile_cons_of_pos hc, List.length_cons,
          pow_succ]
        ring
      have hcast : ((val : ℤ) * 64 + (base64urlChars.idxOf c : ℕ)) =
          ((val * 64 + base64urlChars.idxOf c : ℕ) : ℤ) := by
        push_cast
        ring
      rw [decodeSteps_of_inAlphabet _ _ hc, hfront, List.dropWhile_cons_of_pos hc, hcast]
      rw [List.forall_mem_cons, List.forall_mem_cons, List.forall_mem_cons]
      have haccess : (DecodeStep.access (charIndex c)).Defined := hascii
      have hassign : (DecodeStep.assign (val * 64 + base64urlChars.idxOf c : ℕ)).Defined ↔
          val * 64 + base64urlChars.idxOf c < 2 ^ 31 := by
        unfold DecodeStep.Defined
        omega
      simp only [haccess, hassign, true_and]
      by_cases hnext : val * 64 + base64urlChars.idxOf c < 2 ^ 31
      · rw [ih _ hnext]
        constructor
        · rintro ⟨_, hrest⟩
          exact hrest
        · intro hrest
          exact ⟨hnext, hrest⟩
      · have hover : val * 64 + base64urlChars.idxOf c ≤
            (val * 64 + base64urlChars.idxOf c) * 64 ^ (source.takeWhile inAlphabet).length :=
          Nat.le_mul_of_pos_right _ (Nat.pow_pos (by omega))
        constructor
        · rintro ⟨hint, _⟩
          omega
        · rintro ⟨_, hint⟩
          omega

/-- `Decode` has no undefined behaviour exactly for these sources. -/
theorem decode_defined_iff (source : Bytes) : DecodeDefined source ↔ Short source := by
  have h := decodeSteps_defined_iff source 0 (by omega)
  rw [Nat.zero_mul, Nat.zero_add] at h
  exact h.trans ⟨fun hs => ⟨hs.1, hs.2⟩, fun hs => ⟨hs.1, hs.2⟩⟩

/-- A byte that is not ASCII, and six characters. -/
theorem decode_undefined : ¬ DecodeDefined [0x80] ∧ ¬ DecodeDefined (lit "______") := by
  constructor
  · intro h
    have haccess : (DecodeStep.access (charIndex 0x80)).Defined := by
      refine h _ ?_
      rw [decodeSteps_of_not_inAlphabet 0 [] (by decide +kernel)]
      exact List.mem_singleton_self _
    have hindex : charIndex 0x80 < 256 := haccess
    exact absurd hindex (by decide +kernel)
  · intro h
    have hassign : (DecodeStep.assign (64 ^ 6 - 1)).Defined := by
      refine h _ ?_
      decide +kernel
    exact absurd hassign.2 (by decide)

end MetadataAgent.Base64
