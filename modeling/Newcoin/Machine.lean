import Newcoin.Bytes
import Mathlib.Tactic.NormNum

/-!
# Machine integers, failures, error codes, times

A C++ `int` is an integer; where the width matters the conversion is written out: `toInt` (32 bits,
two's complement), `toSizeT` (64 bits, unsigned) and `toUChar`.  A call that does not return ends in
a `Fault`.
-/

namespace Newcoin

/-- Conversion to `int`. -/
def toInt (x : ℤ) : ℤ := x.bmod (2 ^ 32)

/-- Conversion to `size_t`. -/
def toSizeT (x : ℤ) : ℤ := x % 2 ^ 64

/-- Conversion to `unsigned char`. -/
def toUChar (x : ℤ) : UInt8 := UInt8.ofNat (x % 256).toNat

/-- How a call ends that does not return: an exception, or memory touched outside the object, which
has no defined outcome. -/
inductive Fault
  | overflowError (what : String)
  | runtimeError (what : String)
  | outOfRange
  | outOfBounds
  | badLexicalCast
  deriving DecidableEq, Repr

/-- Of two calls in a row that return, both do. -/
lemma bind_eq_ok {E α β : Type} {x : Except E α} {f : α → Except E β} {b : β} :
    x >>= f = .ok b ↔ ∃ a, x = .ok a ∧ f a = .ok b := by
  cases x with
  | error e => simp [bind, Except.bind]
  | ok a => simp [bind, Except.bind]

/-- `boost::system::error_code`. -/
inductive ErrorCode
  | success
  | eof
  | badAddress
  | other (value : ℤ)
  deriving DecidableEq, Repr

/-- `boost::posix_time::ptime` in seconds; `none` is `not_a_date_time`. -/
abbrev Time := Option ℤ

namespace Time

/-- `<`, false of `not_a_date_time` on either side. -/
def lt (a b : Time) : Bool :=
  match a, b with
  | some x, some y => x < y
  | _, _ => false

/-- `a <= b` is `!(b < a)`. -/
def le (a b : Time) : Bool := !lt b a

/-- `a > b` is `b < a`. -/
def gt (a b : Time) : Bool := lt b a

end Time

@[simp] lemma toInt_eq {x : ℤ} (h1 : -2 ^ 31 ≤ x) (h2 : x < 2 ^ 31) : toInt x = x := by
  unfold toInt
  rw [Int.bmod_eq_of_le_mul_two] <;> norm_num at * <;> omega

/-- The values of an `int`. -/
def IsInt (x : ℤ) : Prop := -2 ^ 31 ≤ x ∧ x < 2 ^ 31

lemma isInt_toInt (x : ℤ) : IsInt (toInt x) := by
  unfold toInt IsInt
  have h1 := Int.le_bmod (x := x) (m := 2 ^ 32) (by norm_num)
  have h2 := Int.bmod_lt (x := x) (m := 2 ^ 32) (by norm_num)
  norm_num at h1 h2 ⊢
  exact ⟨h1, h2⟩

lemma toInt_toInt_add (x y : ℤ) : toInt (toInt x + y) = toInt (x + y) := Int.bmod_add_bmod

/-- An overflow by less than the whole range. -/
lemma toInt_wrap {x : ℤ} (h1 : 2 ^ 31 ≤ x) (h2 : x < 2 ^ 32) : toInt x = x - 2 ^ 32 := by
  unfold toInt
  rw [Int.bmod_neg _ _ (by norm_num; omega)]
  norm_num
  omega

lemma toSizeT_eq {x : ℤ} (h1 : 0 ≤ x) (h2 : x < 2 ^ 64) : toSizeT x = x :=
  Int.emod_eq_of_lt h1 h2

@[simp] lemma toUChar_natCast {n : ℕ} : toUChar n = UInt8.ofNat n := by
  apply UInt8.toNat_inj.1
  unfold toUChar
  simp only [UInt8.toNat_ofNat']
  omega

lemma toNat_toUChar {x : ℤ} (h1 : 0 ≤ x) (h2 : x < 256) : ((toUChar x).toNat : ℤ) = x := by
  unfold toUChar
  simp only [UInt8.toNat_ofNat']
  omega

end Newcoin
