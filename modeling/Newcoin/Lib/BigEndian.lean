import Mathlib.Data.List.Induction
import Mathlib.Data.Nat.Digits.Defs
import Mathlib.Tactic.NormNum
import Mathlib.Tactic.Ring

/-!
# Bytes as numbers, most significant first

* `beNat bs` — the number a byte string denotes; `beBytes n x` — the `n` bytes of a number.  They are
  inverse to each other (`beNat_beBytes`, `beBytes_beNat`).
* `shiftIn`, `shiftOut` — the same conversions as programs write them, with shifts and masks on a
  machine word (`toNat_shiftIn`, `shiftOut_eq`).
-/

namespace Newcoin.Lib

/-- The number a byte string denotes, most significant byte first. -/
def beNat (bs : List UInt8) : ℕ := Nat.ofDigits 256 (bs.reverse.map UInt8.toNat)

/-- The last `n` bytes of a number, most significant first. -/
def beBytes : ℕ → ℕ → List UInt8
  | 0, _ => []
  | n + 1, x => UInt8.ofNat (x / 256 ^ n) :: beBytes n x

@[simp] lemma beNat_nil : beNat [] = 0 := rfl

lemma beNat_concat (bs : List UInt8) (b : UInt8) : beNat (bs ++ [b]) = beNat bs * 256 + b.toNat := by
  simp only [beNat, List.reverse_append, List.reverse_singleton, List.singleton_append,
    List.map_cons, Nat.ofDigits_cons]
  ring

lemma beNat_append (as bs : List UInt8) :
    beNat (as ++ bs) = beNat as * 256 ^ bs.length + beNat bs := by
  simp only [beNat, List.reverse_append, List.map_append, Nat.ofDigits_append, List.length_map,
    List.length_reverse]
  ring

lemma beNat_cons (b : UInt8) (bs : List UInt8) :
    beNat (b :: bs) = b.toNat * 256 ^ bs.length + beNat bs := by
  rw [← List.singleton_append, beNat_append]
  simp [beNat]

lemma beNat_replicate_zero (n : ℕ) : beNat (List.replicate n 0) = 0 := by
  induction n with
  | zero => rfl
  | succ n ih => rw [List.replicate_succ, beNat_cons, ih, UInt8.toNat_zero, Nat.zero_mul]

theorem beNat_lt (bs : List UInt8) : beNat bs < 256 ^ bs.length := by
  have h := Nat.ofDigits_lt_base_pow_length (b := 256) (l := bs.reverse.map UInt8.toNat)
    (by omega) (by simpa using fun b _ => b.toNat_lt)
  simpa [beNat] using h

@[simp] lemma length_beBytes (n x : ℕ) : (beBytes n x).length = n := by
  induction n with
  | zero => rfl
  | succ n ih => simp [beBytes, ih]

theorem beNat_beBytes (n x : ℕ) : beNat (beBytes n x) = x % 256 ^ n := by
  induction n with
  | zero => simp [beBytes, Nat.mod_one]
  | succ n ih =>
    have h : x % 256 ^ (n + 1) = x % 256 ^ n + 256 ^ n * (x / 256 ^ n % 256) := by
      rw [pow_succ, Nat.mod_mul]
    rw [beBytes, beNat_cons, ih, length_beBytes, UInt8.toNat_ofNat', h]
    ring

lemma beBytes_add_mul (n x y : ℕ) : beBytes n (y * 256 ^ n + x) = beBytes n x := by
  induction n generalizing y with
  | zero => rfl
  | succ n ih =>
    have h1 : y * 256 ^ (n + 1) + x = y * 256 * 256 ^ n + x := by ring
    have h2 : (y * 256 * 256 ^ n + x) / 256 ^ n = y * 256 + x / 256 ^ n := by
      rw [Nat.add_comm, Nat.add_mul_div_right _ _ (by positivity), Nat.add_comm]
    rw [h1, beBytes, beBytes, ih, h2]
    congr 1
    apply UInt8.toNat_inj.1
    simp only [UInt8.toNat_ofNat']
    omega

theorem beBytes_beNat (bs : List UInt8) : beBytes bs.length (beNat bs) = bs := by
  induction bs with
  | nil => rfl
  | cons b bs ih =>
    have hlt := beNat_lt bs
    have hdiv : (b.toNat * 256 ^ bs.length + beNat bs) / 256 ^ bs.length = b.toNat := by
      rw [Nat.add_comm, Nat.add_mul_div_right _ _ (by positivity), Nat.div_eq_of_lt hlt, zero_add]
    rw [List.length_cons, beNat_cons, beBytes, beBytes_add_mul, ih, hdiv, UInt8.ofNat_toNat]

/-! ### Shifts and masks -/

/-- `o = *p++; o <<= 8; o |= *p++; …`: the bytes shifted into a word of `w` bits. -/
def shiftIn (w : ℕ) (bs : List UInt8) : BitVec w :=
  bs.foldl (fun o b => o <<< 8 ||| b.toBitVec.setWidth w) 0

/-- The bytes `(i >> 8 * (n - 1)) & 0xff, …, (i >> 8) & 0xff, i & 0xff` of a word. -/
def shiftOut {w : ℕ} : ℕ → BitVec w → List UInt8
  | 0, _ => []
  | n + 1, i => UInt8.ofBitVec ((i >>> (8 * n)).setWidth 8) :: shiftOut n i

@[simp] lemma length_shiftOut {w : ℕ} (n : ℕ) (i : BitVec w) : (shiftOut n i).length = n := by
  induction n with
  | zero => rfl
  | succ n ih => simp [shiftOut, ih]

theorem shiftOut_eq {w : ℕ} (n : ℕ) (i : BitVec w) : shiftOut n i = beBytes n i.toNat := by
  induction n with
  | zero => rfl
  | succ n ih =>
    rw [shiftOut, beBytes, ih]
    congr 1
    apply UInt8.toNat_inj.1
    have h : (2 : ℕ) ^ (8 * n) = 256 ^ n := by rw [pow_mul]; norm_num
    simp [Nat.shiftRight_eq_div_pow, h]

theorem toNat_shiftIn {w : ℕ} (bs : List UInt8) (h : 8 * bs.length ≤ w) :
    (shiftIn w bs).toNat = beNat bs := by
  induction bs using List.reverseRecOn with
  | nil => simp [shiftIn]
  | append_singleton bs b ih =>
    simp only [List.length_append, List.length_singleton] at h
    have hlt : beNat bs * 256 < 2 ^ w := by
      have h1 : beNat bs * 256 < 256 ^ (bs.length + 1) := by
        have := beNat_lt bs
        rw [pow_succ]
        omega
      have h2 : (256 : ℕ) ^ (bs.length + 1) ≤ 2 ^ w := by
        rw [show (256 : ℕ) = 2 ^ 8 by norm_num, ← pow_mul]
        exact Nat.pow_le_pow_right (by omega) (by omega)
      omega
    have hb : b.toNat < 2 ^ 8 := b.toNat_lt
    have hw : (2 : ℕ) ^ 8 ≤ 2 ^ w := Nat.pow_le_pow_right (by omega) (by omega)
    rw [shiftIn, List.foldl_append, List.foldl_cons, List.foldl_nil, ← shiftIn, beNat_concat, BitVec.toNat_or,
      BitVec.toNat_shiftLeft, ih (by omega), BitVec.toNat_setWidth, UInt8.toNat_toBitVec,
      Nat.mod_eq_of_lt (by omega : b.toNat < 2 ^ w), Nat.shiftLeft_eq, Nat.mod_eq_of_lt hlt,
      Nat.mul_comm, ← Nat.two_pow_add_eq_or_of_lt hb, Nat.mul_comm]

/-- What a word is written as reads back as the word. -/
theorem shiftIn_shiftOut {w n : ℕ} (i : BitVec w) (hw : w = 8 * n) :
    shiftIn w (shiftOut n i) = i := by
  apply BitVec.eq_of_toNat_eq
  rw [shiftOut_eq, toNat_shiftIn _ (by simp [hw]), beNat_beBytes]
  refine Nat.mod_eq_of_lt ?_
  rw [show (256 : ℕ) = 2 ^ 8 by norm_num, ← pow_mul, ← hw]
  exact i.isLt

end Newcoin.Lib
