import Mathlib.Data.Nat.Digits.Lemmas
import Mathlib.Logic.Function.Iterate

/-!
# Counters

`Counts N v f`: the function `f` counts, modulo `N`, the number that `v` reads off a value.

* `Counts.cycle`, `Counts.existsUnique` — from any value, `N` steps visit every value once and return.
* `CountsDown.undo`, `CountsDown.redo` — counting down takes a step back.
* `ripple` — the words of a number, the least first, changed from the least on for as long as there is a
  carry (`bitsVal_increment`), or a borrow (`bitsVal_decrement`).
* `Skewed` — a reading of the words by which neither counts (`Skewed.increment_eq_iff`, `Skewed.decrement_eq_iff`).
-/

namespace Newcoin.Lib

/-- `f` adds one to what `v` reads, and `v` tells all values apart. -/
structure Counts {α : Type*} (N : ℕ) (v : α → ℕ) (f : α → α) : Prop where
  lt : ∀ a, v a < N
  inj : Function.Injective v
  step : ∀ a, v (f a) = (v a + 1) % N

/-- `g` takes one from what `v` reads. -/
def CountsDown {α : Type*} (N : ℕ) (v : α → ℕ) (g : α → α) : Prop := ∀ a, v (g a) = (v a + (N - 1)) % N

section Cycle

variable {α : Type*} {N : ℕ} {v : α → ℕ} {f g : α → α}

lemma Counts.iterate (h : Counts N v f) (k : ℕ) (a : α) : v (f^[k] a) = (v a + k) % N := by
  induction k with
  | zero => exact (Nat.mod_eq_of_lt (h.lt a)).symm
  | succ k ih =>
    rw [Function.iterate_succ_apply', h.step, ih, Nat.mod_add_mod]
    rfl

theorem Counts.cycle (h : Counts N v f) (a : α) : f^[N] a = a := by
  apply h.inj
  rw [h.iterate, Nat.add_mod_right, Nat.mod_eq_of_lt (h.lt a)]

/-- **Every value is met once** before the first one comes again. -/
theorem Counts.existsUnique (h : Counts N v f) (a b : α) : ∃! k, k < N ∧ f^[k] a = b := by
  have ha := h.lt a
  have hb := h.lt b
  have key : ∀ k < N, f^[k] a = b → k = (v b + (N - v a)) % N := by
    rintro k hk rfl
    rw [h.iterate, Nat.mod_add_mod, show v a + k + (N - v a) = k + N by omega, Nat.add_mod_right,
      Nat.mod_eq_of_lt hk]
  refine ⟨(v b + (N - v a)) % N, ⟨Nat.mod_lt _ (by omega), ?_⟩, fun k hk => key k hk.1 hk.2⟩
  apply h.inj
  rw [h.iterate, Nat.add_mod_mod, show v a + (v b + (N - v a)) = v b + N by omega, Nat.add_mod_right,
    Nat.mod_eq_of_lt hb]

theorem CountsDown.undo (hg : CountsDown N v g) (h : Counts N v f) (a : α) : g (f a) = a := by
  have ha := h.lt a
  apply h.inj
  rw [hg, h.step, Nat.mod_add_mod, show v a + 1 + (N - 1) = v a + N by omega, Nat.add_mod_right,
    Nat.mod_eq_of_lt ha]

theorem CountsDown.redo (hg : CountsDown N v g) (h : Counts N v f) (a : α) : f (g a) = a := by
  have ha := h.lt a
  apply h.inj
  rw [h.step, hg, Nat.mod_add_mod, show v a + (N - 1) + 1 = v a + N by omega, Nat.add_mod_right,
    Nat.mod_eq_of_lt ha]

end Cycle

/-! ### Words -/

section Words

variable {α : Type*}

/-- The words, the least first, each put through `f` up to the first one that does not come out as
`carry`. -/
def ripple [DecidableEq α] (f : α → α) (carry : α) : List α → List α
  | [] => []
  | x :: xs => if f x = carry then f x :: ripple f carry xs else f x :: xs

@[simp] lemma length_ripple [DecidableEq α] (f : α → α) (carry : α) (xs : List α) :
    (ripple f carry xs).length = xs.length := by
  induction xs with
  | nil => rfl
  | cons x xs ih =>
    rw [ripple]
    split_ifs
    · simp [ih]
    · rfl

/-- The number that words are, the least first, each read by `g` as a digit over base `b`. -/
def wordsVal (b : ℕ) (g : α → ℕ) (xs : List α) : ℕ := Nat.ofDigits b (xs.map g)

@[simp] lemma wordsVal_nil (b : ℕ) (g : α → ℕ) : wordsVal b g [] = 0 := rfl

@[simp] lemma wordsVal_cons (b : ℕ) (g : α → ℕ) (x : α) (xs : List α) :
    wordsVal b g (x :: xs) = g x + b * wordsVal b g xs := by
  simp [wordsVal, Nat.ofDigits_cons]

lemma wordsVal_lt {b : ℕ} {g : α → ℕ} (hg : ∀ x, g x < b) (xs : List α) : wordsVal b g xs < b ^ xs.length := by
  induction xs with
  | nil => simp
  | cons x xs ih =>
    have hx := hg x
    have hmul : b * (wordsVal b g xs + 1) ≤ b * b ^ xs.length := Nat.mul_le_mul_left b ih
    rw [wordsVal_cons, List.length_cons, pow_succ']
    rw [mul_add] at hmul
    omega

variable {w : ℕ}

/-- The value of words of `w` bits. -/
def bitsVal (xs : List (BitVec w)) : ℕ := wordsVal (2 ^ w) BitVec.toNat xs

@[simp] lemma bitsVal_cons (x : BitVec w) (xs : List (BitVec w)) :
    bitsVal (x :: xs) = x.toNat + 2 ^ w * bitsVal xs := wordsVal_cons _ _ _ _

lemma bitsVal_lt (xs : List (BitVec w)) : bitsVal xs < (2 ^ w) ^ xs.length := wordsVal_lt BitVec.isLt xs

lemma bitsVal_inj {xs ys : List (BitVec w)} (hlen : xs.length = ys.length) (h : bitsVal xs = bitsVal ys) :
    xs = ys := by
  induction xs generalizing ys with
  | nil => exact (List.length_eq_zero_iff.1 hlen.symm).symm
  | cons x xs ih =>
    cases ys with
    | nil => cases hlen
    | cons y ys =>
      rw [bitsVal_cons, bitsVal_cons] at h
      have hx : x.toNat = y.toNat := by
        have hmod := congrArg (· % 2 ^ w) h
        simpa [Nat.add_mul_mod_self_left, Nat.mod_eq_of_lt x.isLt, Nat.mod_eq_of_lt y.isLt] using hmod
      have hxs : bitsVal xs = bitsVal ys := by
        rw [hx] at h
        exact Nat.eq_of_mul_eq_mul_left (Nat.two_pow_pos w) (Nat.add_left_cancel h)
      rw [BitVec.eq_of_toNat_eq hx, ih (Nat.succ.inj hlen) hxs]

lemma toNat_add_one_mod (x : BitVec w) : (x + 1).toNat = (x.toNat + 1) % 2 ^ w := by
  rw [BitVec.toNat_add, BitVec.ofNat_eq_ofNat, BitVec.toNat_ofNat, Nat.add_mod_mod]

/-- A word comes out of `++` as zero if it had all bits set. -/
lemma add_one_eq_zero_iff {x : BitVec w} : x + 1 = 0 ↔ x.toNat + 1 = 2 ^ w := by
  have hx := x.isLt
  rw [← BitVec.toNat_inj, toNat_add_one_mod, BitVec.ofNat_eq_ofNat, BitVec.toNat_ofNat, Nat.zero_mod]
  constructor
  · intro h
    have hle := Nat.le_of_dvd (Nat.succ_pos _) (Nat.dvd_of_mod_eq_zero h)
    omega
  · intro h
    rw [h, Nat.mod_self]

lemma toNat_add_one {x : BitVec w} (h : x + 1 ≠ 0) : (x + 1).toNat = x.toNat + 1 := by
  have hx := x.isLt
  rw [toNat_add_one_mod, Nat.mod_eq_of_lt]
  have hne := mt add_one_eq_zero_iff.2 h
  omega

/-- **Adding one with carries adds one.** -/
theorem bitsVal_increment (xs : List (BitVec w)) :
    bitsVal (ripple (· + 1) 0 xs) = (bitsVal xs + 1) % (2 ^ w) ^ xs.length := by
  induction xs with
  | nil => simp [ripple, bitsVal]
  | cons x xs ih =>
    rw [ripple]
    split_ifs with h
    · have hx : x.toNat + 2 ^ w * bitsVal xs + 1 = 2 ^ w * (bitsVal xs + 1) := by
        rw [mul_add, mul_one, ← add_one_eq_zero_iff.1 h]
        omega
      rw [bitsVal_cons, ih, h, List.length_cons, pow_succ', bitsVal_cons, hx, Nat.mul_mod_mul_left]
      simp
    · have hx := toNat_add_one h
      have hlt := bitsVal_lt ((x + 1) :: xs)
      rw [bitsVal_cons, hx, Nat.add_right_comm] at hlt
      rw [bitsVal_cons, hx, Nat.add_right_comm, bitsVal_cons, Nat.mod_eq_of_lt]
      simpa using hlt

lemma sub_one_eq_allOnes_iff {x : BitVec w} : x - 1 = BitVec.allOnes w ↔ x - 1 + 1 = 0 := by
  have hpos := Nat.two_pow_pos w
  rw [add_one_eq_zero_iff, ← BitVec.toNat_inj, BitVec.toNat_allOnes]
  omega

/-- Taking one away with borrows, and adding it again with carries. -/
lemma ripple_increment_decrement (xs : List (BitVec w)) :
    ripple (· + 1) 0 (ripple (· - 1) (BitVec.allOnes w) xs) = xs := by
  induction xs with
  | nil => rfl
  | cons x xs ih =>
    have hx : x - 1 + 1 = x := BitVec.sub_add_cancel x 1
    rw [ripple]
    split_ifs with h
    · rw [ripple, if_pos (sub_one_eq_allOnes_iff.1 h), ih, hx]
    · rw [ripple, if_neg (mt sub_one_eq_allOnes_iff.2 h), hx]

theorem bitsVal_decrement (xs : List (BitVec w)) :
    bitsVal (ripple (· - 1) (BitVec.allOnes w) xs) =
      (bitsVal xs + ((2 ^ w) ^ xs.length - 1)) % (2 ^ w) ^ xs.length := by
  have hpos : 0 < (2 ^ w) ^ xs.length := by positivity
  have hlt := bitsVal_lt (ripple (· - 1) (BitVec.allOnes w) xs)
  have hinc := bitsVal_increment (ripple (· - 1) (BitVec.allOnes w) xs)
  rw [length_ripple] at hlt
  rw [ripple_increment_decrement, length_ripple] at hinc
  rw [hinc, Nat.mod_add_mod, Nat.add_assoc, Nat.add_sub_of_le hpos, Nat.add_mod_right, Nat.mod_eq_of_lt hlt]

/-! ### Words read in another way -/

/-- A reading of words that has zero and the largest one in their places, but never the step in between:
the bytes of a word read from the wrong end, for one. -/
structure Skewed (g : BitVec w → ℕ) : Prop where
  lt : ∀ x, g x < 2 ^ w
  zero : ∀ x, g x = 0 ↔ x = 0
  max : ∀ x, g x + 1 = 2 ^ w ↔ x + 1 = 0
  step : ∀ x, x + 1 ≠ 0 → g (x + 1) ≠ g x + 1

namespace Skewed

variable {g : BitVec w → ℕ}

lemma increment_eq_zero_iff (hg : Skewed g) (xs : List (BitVec w)) :
    wordsVal (2 ^ w) g (ripple (· + 1) 0 xs) = 0 ↔ wordsVal (2 ^ w) g xs + 1 = (2 ^ w) ^ xs.length := by
  induction xs with
  | nil => simp [ripple]
  | cons x xs ih =>
    have hpos := Nat.two_pow_pos w
    rw [ripple]
    split_ifs with h
    · have hx := (hg.max x).2 h
      have hsum : g x + 2 ^ w * wordsVal (2 ^ w) g xs + 1 = 2 ^ w * (wordsVal (2 ^ w) g xs + 1) := by
        rw [mul_add, mul_one]
        omega
      rw [wordsVal_cons, h, (hg.zero 0).2 rfl, zero_add, Nat.mul_eq_zero, wordsVal_cons, hsum, List.length_cons,
        pow_succ', Nat.mul_right_inj hpos.ne', ← ih]
      simp
    · have hx := mt (hg.max x).1 h
      have hlt := hg.lt x
      have hrest := Nat.mul_le_mul_left (2 ^ w) (wordsVal_lt hg.lt xs)
      have hz := mt (hg.zero (x + 1)).1 h
      rw [wordsVal_cons, wordsVal_cons, List.length_cons, pow_succ']
      rw [Nat.mul_succ] at hrest
      constructor <;> intro heq <;> omega

lemma increment_ne (hg : Skewed g) (xs : List (BitVec w)) :
    wordsVal (2 ^ w) g (ripple (· + 1) 0 xs) ≠ wordsVal (2 ^ w) g xs + 1 := by
  induction xs with
  | nil => simp [ripple]
  | cons x xs ih =>
    have hpos := Nat.two_pow_pos w
    rw [ripple]
    split_ifs with h
    · have hx := (hg.max x).2 h
      intro heq
      rw [wordsVal_cons, wordsVal_cons, h, (hg.zero 0).2 rfl] at heq
      refine ih (Nat.eq_of_mul_eq_mul_left hpos ?_)
      rw [mul_add]
      omega
    · have hx := hg.step x h
      rw [wordsVal_cons, wordsVal_cons]
      omega

/-- **Adding one adds one to the largest number only**, where it wraps. -/
theorem increment_eq_iff (hg : Skewed g) (xs : List (BitVec w)) :
    wordsVal (2 ^ w) g (ripple (· + 1) 0 xs) = (wordsVal (2 ^ w) g xs + 1) % (2 ^ w) ^ xs.length ↔
      wordsVal (2 ^ w) g xs + 1 = (2 ^ w) ^ xs.length := by
  have hlt := wordsVal_lt hg.lt xs
  constructor
  · intro h
    by_contra hne
    rw [Nat.mod_eq_of_lt (by omega)] at h
    exact hg.increment_ne xs h
  · intro h
    rw [(hg.increment_eq_zero_iff xs).2 h, h, Nat.mod_self]

/-- **Taking one away takes one from zero only**, where it wraps. -/
theorem decrement_eq_iff (hg : Skewed g) (xs : List (BitVec w)) :
    wordsVal (2 ^ w) g (ripple (· - 1) (BitVec.allOnes w) xs) =
        (wordsVal (2 ^ w) g xs + ((2 ^ w) ^ xs.length - 1)) % (2 ^ w) ^ xs.length ↔
      wordsVal (2 ^ w) g xs = 0 := by
  obtain ⟨ys, hys⟩ : ∃ ys, ys = ripple (· - 1) (BitVec.allOnes w) xs := ⟨_, rfl⟩
  have hback := ripple_increment_decrement xs
  have hlen : ys.length = xs.length := by rw [hys, length_ripple]
  have hlt := wordsVal_lt hg.lt xs
  have hzero := hg.increment_eq_zero_iff ys
  have hstep := hg.increment_eq_iff ys
  rw [← hys] at hback ⊢
  rw [hback, hlen] at hzero hstep
  constructor
  · intro h
    refine hzero.2 (hstep.1 ?_)
    rw [h, Nat.mod_add_mod, Nat.add_assoc, Nat.sub_add_cancel (by omega), Nat.add_mod_right, Nat.mod_eq_of_lt hlt]
  · intro h
    have hmax := hzero.1 h
    rw [h, Nat.mod_eq_of_lt (by omega)]
    omega

/-- What adding one makes larger, by the first word that it does not carry out of. -/
theorem lt_increment_iff (hg : Skewed g) (xs : List (BitVec w)) :
    wordsVal (2 ^ w) g xs < wordsVal (2 ^ w) g (ripple (· + 1) 0 xs) ↔
      ∃ x, xs.find? (· + 1 != 0) = some x ∧ g x < g (x + 1) := by
  induction xs with
  | nil => simp [ripple]
  | cons x xs ih =>
    rw [ripple]
    split_ifs with h
    · have hx := (hg.max x).2 h
      obtain ⟨n, hn⟩ : ∃ n, n = wordsVal (2 ^ w) g xs := ⟨_, rfl⟩
      obtain ⟨m, hm⟩ : ∃ m, m = wordsVal (2 ^ w) g (ripple (· + 1) 0 xs) := ⟨_, rfl⟩
      have hmul : 2 ^ w * (n + 1) ≤ 2 ^ w * m ↔ n + 1 ≤ m := Nat.mul_le_mul_left_iff (Nat.two_pow_pos w)
      rw [mul_add, mul_one] at hmul
      rw [List.find?_cons_of_neg (by simpa using h), ← ih, wordsVal_cons, wordsVal_cons, h, (hg.zero 0).2 rfl,
        ← hn, ← hm]
      omega
    · rw [List.find?_cons_of_pos (by simpa using h), wordsVal_cons, wordsVal_cons]
      simp

end Skewed

end Words

end Newcoin.Lib
