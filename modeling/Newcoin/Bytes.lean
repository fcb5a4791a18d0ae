import Mathlib.Data.List.Basic

/-!
# Bytes

The source's `std::string` and `std::vector<unsigned char>` are both lists of bytes here.
-/

namespace Newcoin

/-- A `std::string` or a `std::vector<unsigned char>`. -/
abbrev Bytes := List UInt8

/-- The bytes of a string literal. -/
def cString (s : String) : Bytes := s.toUTF8.data.toList

/-- The key by which `std::string::compare` orders: the characters as unsigned numbers. -/
def charCodes (s : Bytes) : List ℕ := s.map UInt8.toNat

/-- A fact about bytes can be looked up. -/
lemma forall_byte {P : UInt8 → Prop} (h : ∀ n < 256, P (.ofNat n)) (c : UInt8) : P c := by
  have hc := h c.toNat c.toNat_lt
  rwa [UInt8.ofNat_toNat] at hc

end Newcoin
