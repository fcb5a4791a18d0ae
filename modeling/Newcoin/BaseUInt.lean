import Newcoin.Bytes
import Newcoin.Lib.BigEndian

/-!
# `base_uint`

A `base_uint<BITS>` by its memory: `BITS / 8` bytes, as `begin()` and `end()` delimit them.  They are the
number `toNat`, and `compare` orders by it (`compare_lt_zero_iff`).
-/

namespace Newcoin

open Lib

/-- `base_uint<BITS>`. -/
structure BaseUInt (BITS : ℕ) where
  bytes : Bytes
  size : bytes.length = BITS / 8
  deriving DecidableEq

namespace BaseUInt

variable {BITS : ℕ}

@[ext] lemma ext {a b : BaseUInt BITS} (h : a.bytes = b.bytes) : a = b := by
  cases a; cases b; simpa using h

/-- The value of a `base_uint` with all words zero. -/
def zero (BITS : ℕ) : BaseUInt BITS := ⟨List.replicate (BITS / 8) 0, by simp⟩

/-- `memcpy(o.begin(), p, BITS / 8)` from bytes of that number; also the constructor from a vector, which
gives zero for one of another size. -/
def ofBytes (BITS : ℕ) (bs : Bytes) : BaseUInt BITS :=
  if h : bs.length = BITS / 8 then ⟨bs, h⟩ else zero BITS

lemma ofBytes_bytes (a : BaseUInt BITS) : ofBytes BITS a.bytes = a := by
  simp [ofBytes, a.size]

/-! ### The number -/

/-- The bytes as a number, the most significant one first. -/
def toNat (a : BaseUInt BITS) : ℕ := beNat a.bytes

/-- The loop of `compare`, over `[pA, pAEnd)` and as many bytes from `pB` on. -/
def compareFrom : Bytes → Bytes → ℤ
  | a :: pA, b :: pB => if a = b then compareFrom pA pB else if a < b then -1 else if a > b then 1 else 0
  | _, _ => 0

def compare (a b : BaseUInt BITS) : ℤ := compareFrom a.bytes b.bytes

lemma toNat_lt (a : BaseUInt BITS) : a.toNat < 256 ^ (BITS / 8) := by
  rw [toNat, ← a.size]
  exact beNat_lt a.bytes

lemma toNat_inj {a b : BaseUInt BITS} (h : a.toNat = b.toNat) : a = b := by
  apply ext
  rw [← beBytes_beNat a.bytes, ← beBytes_beNat b.bytes, a.size, b.size]
  exact congrArg (beBytes _) h

lemma compareFrom_lt_zero_iff {as bs : Bytes} (h : as.length = bs.length) :
    compareFrom as bs < 0 ↔ beNat as < beNat bs := by
  induction as generalizing bs with
  | nil => simp [List.length_eq_zero_iff.1 h.symm, compareFrom]
  | cons a as ih =>
    cases bs with
    | nil => cases h
    | cons b bs =>
      have hlen : as.length = bs.length := Nat.succ.inj h
      have hpos : 0 < 256 ^ bs.length := by positivity
      have hA := beNat_lt as
      have hB := beNat_lt bs
      rw [compareFrom, beNat_cons, beNat_cons, hlen]
      rw [hlen] at hA
      split_ifs with heq hlt hgt
      · rw [ih hlen, heq]
        omega
      · have hmul := Nat.mul_le_mul_right (256 ^ bs.length) (UInt8.lt_iff_toNat_lt.1 hlt)
        rw [Nat.succ_mul] at hmul
        exact iff_of_true (by decide) (by omega)
      · have hmul := Nat.mul_le_mul_right (256 ^ bs.length) (UInt8.lt_iff_toNat_lt.1 hgt)
        rw [Nat.succ_mul] at hmul
        exact iff_of_false (by decide) (by omega)
      · exact absurd (UInt8.le_antisymm (UInt8.not_lt.1 hgt) (UInt8.not_lt.1 hlt)) heq

/-- **`compare` orders by the number.** -/
theorem compare_lt_zero_iff {a b : BaseUInt BITS} : compare a b < 0 ↔ a.toNat < b.toNat :=
  compareFrom_lt_zero_iff (a.size.trans b.size.symm)

lemma bytes_ofBytes {bs : Bytes} (h : bs.length = BITS / 8) : (ofBytes BITS bs).bytes = bs := by
  rw [ofBytes, dif_pos h]

/-- Bytes at the end, behind zeros. -/
lemma toNat_ofBytes_zeros {bs : Bytes} {n : ℕ} (h : n + bs.length = BITS / 8) :
    (ofBytes BITS (List.replicate n 0 ++ bs)).toNat = beNat bs := by
  have hlen : (List.replicate n 0 ++ bs).length = BITS / 8 := by
    rwa [List.length_append, List.length_replicate]
  rw [toNat, bytes_ofBytes hlen, beNat_append, beNat_replicate_zero, Nat.zero_mul, zero_add]

end BaseUInt

end Newcoin
