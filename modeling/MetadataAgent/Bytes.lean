import MetadataAgent.Lib.OrderedMap
import Mathlib.Data.List.Lex
import Mathlib.Data.Prod.Lex
import Mathlib.Data.Int.Notation

/-! # Byte strings

`std::string` is a sequence of bytes; its `operator<` compares bytes as unsigned numbers, first
difference first. -/
namespace MetadataAgent
set_option autoImplicit false

instance byteLinearOrder : LinearOrder UInt8 where
  le_refl := UInt8.le_refl
  le_trans _ _ _ := UInt8.le_trans
  lt_iff_le_not_ge a b := by
    simp only [UInt8.lt_iff_toNat_lt, UInt8.le_iff_toNat_le]
    omega
  le_antisymm _ _ := UInt8.le_antisymm
  le_total := UInt8.le_total
  toDecidableLE := inferInstance
  toDecidableLT := inferInstance
  toDecidableEq := inferInstance

abbrev Bytes := List UInt8

/-- The bytes of an ASCII literal of the source. -/
def lit (s : String) : Bytes := s.toList.map fun c => c.toNat.toUInt8

def digits (n : ℕ) : Bytes := (Nat.toDigits 10 n).map fun c => c.toNat.toUInt8

/-- `std::to_string` of an integer. -/
def decimal : ℤ → Bytes
  | .ofNat n => digits n
  | .negSucc n => lit "-" ++ digits (n + 1)

end MetadataAgent
