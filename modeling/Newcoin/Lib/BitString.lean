import Newcoin.Lib.BigEndian
import Mathlib.Data.Nat.Bitwise

/-!
# A memory as a string of bits

Bit `i` of a memory `s : ℕ → UInt8` is bit `7 - i % 8` of byte `i / 8`: bytes in address order, the most
significant bit of each first.

* `field s start n` — the number that the `n` bits from `start` on denote.
* `three_bytes_eq_field` — the shift-and-mask expression that reads such a field out of the three
  bytes it may touch.
* `bitAt_orByte` — what `|=`-ing a value into one byte does to every bit of the memory.
-/

namespace Newcoin.Lib

/-- Bit `i` of a memory. -/
def bitAt (s : ℕ → UInt8) (i : ℕ) : Bool := (s (i / 8)).toNat.testBit (7 - i % 8)

/-- The number that the `n` bits from `start` on denote, the first of them most significant. -/
def field (s : ℕ → UInt8) (start : ℕ) : ℕ → ℕ
  | 0 => 0
  | n + 1 => Nat.bit (bitAt s (start + n)) (field s start n)

lemma testBit_field (s : ℕ → UInt8) (start n j : ℕ) :
    (field s start n).testBit j = (decide (j < n) && bitAt s (start + n - 1 - j)) := by
  induction n generalizing j with
  | zero => simp [field]
  | succ n ih =>
    rw [field]
    cases j with
    | zero => simp
    | succ j =>
      rw [Nat.testBit_bit_succ, ih]
      congr 2
      · simp
      · omega

lemma field_lt (s : ℕ → UInt8) (start n : ℕ) : field s start n < 2 ^ n := by
  refine Nat.lt_pow_two_of_testBit _ ?_
  intro j hj
  simp [testBit_field, Nat.not_lt.2 hj]

/-- A field is determined by its bits. -/
lemma field_congr {s t : ℕ → UInt8} {start n : ℕ}
    (h : ∀ i, start ≤ i → i < start + n → bitAt s i = bitAt t i) : field s start n = field t start n := by
  induction n with
  | zero => rfl
  | succ n ih =>
    rw [field, field, ih fun i h1 h2 => h i h1 (by omega), h _ (by omega) (by omega)]

/-- A field of a field. -/
lemma field_field (s : ℕ → UInt8) (start n a m : ℕ) (h : a + m ≤ n) :
    field s (start + a) m = field s start n / 2 ^ (n - a - m) % 2 ^ m := by
  apply Nat.eq_of_testBit_eq
  intro j
  rw [Nat.testBit_mod_two_pow, Nat.testBit_div_two_pow, testBit_field, testBit_field]
  by_cases hj : j < m
  · rw [decide_eq_true hj, decide_eq_true (by omega : j + (n - a - m) < n)]
    congr 2
    omega
  · simp [hj]

lemma field_append (s : ℕ → UInt8) (start m n : ℕ) :
    field s start (m + n) = field s start m * 2 ^ n + field s (start + m) n := by
  have h1 := field_field s start (m + n) 0 m (by omega)
  have h2 := field_field s start (m + n) m n (by omega)
  have hlt := field_lt s start (m + n)
  rw [Nat.add_zero, Nat.sub_zero, Nat.add_sub_cancel_left, Nat.mod_eq_of_lt] at h1
  · rw [Nat.add_sub_cancel_left, Nat.sub_self, pow_zero, Nat.div_one] at h2
    rw [h1, h2, Nat.mul_comm]
    exact (Nat.div_add_mod _ _).symm
  · rw [Nat.div_lt_iff_lt_mul (by positivity), ← pow_add]
    exact hlt

/-- A byte is the field of its eight bits. -/
lemma field_byte (s : ℕ → UInt8) (k : ℕ) : field s (8 * k) 8 = (s k).toNat := by
  apply Nat.eq_of_testBit_eq
  intro j
  rw [testBit_field, bitAt]
  by_cases hj : j < 8
  · rw [decide_eq_true hj, Bool.true_and]
    congr 1
    · rw [show (8 * k + 8 - 1 - j) / 8 = k by omega]
    · omega
  · rw [Nat.testBit_lt_two_pow ((s k).toNat_lt.trans_le (Nat.pow_le_pow_right (by omega) (by omega : 8 ≤ j)))]
    simp [hj]

lemma byte_ext {s t : ℕ → UInt8} {k : ℕ} (h : ∀ i, 8 * k ≤ i → i < 8 * k + 8 → bitAt s i = bitAt t i) :
    s k = t k := by
  apply UInt8.toNat_inj.1
  rw [← field_byte s, ← field_byte t, field_congr h]

/-- The leading bytes of a memory, as one number. -/
lemma field_eq_beNat {s : ℕ → UInt8} {bs : List UInt8} (h : ∀ k (hk : k < bs.length), s k = bs[k]) :
    field s 0 (8 * bs.length) = beNat bs := by
  induction bs using List.reverseRecOn with
  | nil => rfl
  | append_singleton bs b ih =>
    have hb : s bs.length = b := by simpa using h bs.length (by simp)
    have hbs : ∀ k (hk : k < bs.length), s k = bs[k] := by
      intro k hk
      rw [h k (by simp; omega), List.getElem_append_left hk]
    rw [List.length_append, List.length_singleton, Nat.mul_add, Nat.mul_one, field_append, ih hbs,
      Nat.zero_add, field_byte, hb, beNat_concat]
    norm_num

/-! ### Reading a field with shifts and a mask -/

lemma testBit_three {a b c : ℕ} (hb : b < 2 ^ 8) (hc : c < 2 ^ 8) (k : ℕ) :
    ((a <<< 8 ||| b) <<< 8 ||| c).testBit k =
      if k < 8 then c.testBit k else if k < 16 then b.testBit (k - 8) else a.testBit (k - 16) := by
  have small : ∀ {x n : ℕ}, x < 2 ^ 8 → 8 ≤ n → x.testBit n = false := fun hx hn =>
    Nat.testBit_lt_two_pow (hx.trans_le (Nat.pow_le_pow_right (by omega) hn))
  simp only [Nat.testBit_or, Nat.testBit_shiftLeft]
  split_ifs with h1 h2
  · simp [h1]
  · simp [small hc (by omega : 8 ≤ k), show 8 ≤ k by omega, show ¬ 8 ≤ k - 8 by omega]
  · simp [small hc (by omega : 8 ≤ k), small hb (by omega : 8 ≤ k - 8), show 8 ≤ k by omega,
      show 8 ≤ k - 8 by omega, show k - 8 - 8 = k - 16 by omega]

/-- Three bytes put together, the field moved to the right end, the other bits masked out. -/
theorem three_bytes_eq_field (s : ℕ → UInt8) {start n : ℕ} (h : start % 8 + n ≤ 24) (hn : n ≤ 16) :
    ((((s (start / 8)).toNat <<< 8 ||| (s (start / 8 + 1)).toNat) <<< 8 |||
      (s (start / 8 + 2)).toNat) >>> (24 - (n + start % 8)) &&& 0xffff >>> (16 - n)) =
      field s start n := by
  apply Nat.eq_of_testBit_eq
  intro j
  have hmask : (0xffff >>> (16 - n)).testBit j = decide (j < n) := by
    rw [Nat.testBit_shiftRight, show (0xffff : ℕ) = 2 ^ 16 - 1 by norm_num, Nat.testBit_two_pow_sub_one]
    exact decide_eq_decide.2 (by omega)
  rw [Nat.testBit_and, Nat.testBit_shiftRight, hmask, testBit_field, Bool.and_comm,
    testBit_three (UInt8.toNat_lt _) (UInt8.toNat_lt _)]
  by_cases hj : j < n
  swap
  · simp [hj]
  rw [decide_eq_true hj, Bool.true_and, Bool.true_and, bitAt]
  -- The byte a bit falls in, counted from the field's first byte.
  split_ifs with h1 h2
  · rw [show (start + n - 1 - j) / 8 = start / 8 + 2 by omega,
      show 7 - (start + n - 1 - j) % 8 = 24 - (n + start % 8) + j by omega]
  · rw [show (start + n - 1 - j) / 8 = start / 8 + 1 by omega,
      show 7 - (start + n - 1 - j) % 8 = 24 - (n + start % 8) + j - 8 by omega]
  · rw [show (start + n - 1 - j) / 8 = start / 8 by omega,
      show 7 - (start + n - 1 - j) % 8 = 24 - (n + start % 8) + j - 16 by omega]

/-! ### Writing -/

/-- `s[k] |= c`. -/
def orByte (s : ℕ → UInt8) (k : ℕ) (c : UInt8) : ℕ → UInt8 := Function.update s k (s k ||| c)

theorem bitAt_orByte (s : ℕ → UInt8) (k : ℕ) (c : UInt8) (i : ℕ) :
    bitAt (orByte s k c) i = (bitAt s i || (decide (i / 8 = k) && c.toNat.testBit (7 - i % 8))) := by
  rw [bitAt, bitAt, orByte, Function.update_apply]
  by_cases h : i / 8 = k
  · simp [h, Nat.testBit_or]
  · simp [h]

end Newcoin.Lib
