import Mathlib.Algebra.BigOperators.Intervals
import Mathlib.Algebra.BigOperators.Ring.Finset
import Mathlib.Algebra.Order.BigOperators.Group.Finset
import Mathlib.Tactic.Ring
import Mathlib.Tactic.Linarith

/-!
# Shares of a whole in a falling order, and in-place additions to a list

* `share b n i` — what the `i`-th of `n` entries gets of a base `b`: `n - i` parts of `n`, rounded
  towards zero.  All shares together are at most half of `b * (n + 1)` (`two_mul_sum_share_le`).
* `fallingBase s n` — the base for which the shares of `n` entries cannot exceed `s`
  (`sum_share_fallingBase_le`).
* `sum_map_modify` — what a list's total gains when one entry is changed in place.
-/

namespace Newcoin.Lib

open Finset

/-! ### Shares -/

/-- The share of the `i`-th of `n` entries of the base `b`. -/
def share (b : ℤ) (n i : ℕ) : ℤ := (b * (n - i)).tdiv n

/-- The base of `n` entries that divide `s` among them: `2 s / (n + 1)`, in the two roundings it is
computed with. -/
def fallingBase (s : ℤ) (n : ℕ) : ℤ := (s * n).tdiv (((n + 1) * n : ℤ).tdiv 2)

lemma tdiv_mul_le {a b : ℤ} (ha : 0 ≤ a) (hb : 0 ≤ b) : a.tdiv b * b ≤ a := by
  rw [Int.tdiv_eq_ediv_of_nonneg ha]
  rcases hb.eq_or_lt with rfl | hb
  · simpa using ha
  · exact Int.ediv_mul_le a hb.ne'

lemma share_nonneg {b : ℤ} (hb : 0 ≤ b) {n i : ℕ} (hi : i ≤ n) : 0 ≤ share b n i := by
  have h : (0 : ℤ) ≤ n - i := by omega
  exact Int.tdiv_nonneg (mul_nonneg hb h) (by omega)

/-- Shares fall. -/
lemma share_antitone {b : ℤ} (hb : 0 ≤ b) (n : ℕ) {i j : ℕ} (hij : i ≤ j) : share b n j ≤ share b n i := by
  rcases Nat.eq_zero_or_pos n with rfl | hn
  · simp [share]
  · have hparts : b * ((n : ℤ) - j) ≤ b * ((n : ℤ) - i) := mul_le_mul_of_nonneg_left (by omega) hb
    exact Int.tdiv_le_tdiv (by exact_mod_cast hn) hparts

lemma fallingBase_nonneg {s : ℤ} (hs : 0 ≤ s) (n : ℕ) : 0 ≤ fallingBase s n :=
  Int.tdiv_nonneg (by positivity) (Int.tdiv_nonneg (by positivity) (by omega))

/-- The parts of the entries, before any rounding, are `1 + … + n`. -/
lemma two_mul_sum_parts (n : ℕ) : 2 * ∑ i ∈ range n, ((n : ℤ) - i) = n * (n + 1) := by
  have hg : 2 * ∑ i ∈ range n, (i : ℤ) = n * (n - 1) := by
    induction n with
    | zero => simp
    | succ n ih =>
      rw [sum_range_succ, mul_add, ih]
      push_cast
      ring
  rw [sum_sub_distrib, mul_sub, hg, sum_const, card_range, nsmul_eq_mul]
  ring

theorem two_mul_sum_share_le {b : ℤ} (hb : 0 ≤ b) {n : ℕ} (hn : 0 < n) :
    2 * ∑ i ∈ range n, share b n i ≤ b * (n + 1) := by
  have hn' : (0 : ℤ) < n := by exact_mod_cast hn
  have hone : ∀ i ∈ range n, share b n i * n ≤ b * (n - i) := by
    intro i hi
    have : (0 : ℤ) ≤ n - i := by have := mem_range.1 hi; omega
    exact tdiv_mul_le (mul_nonneg hb this) hn'.le
  have hsum : (∑ i ∈ range n, share b n i) * n ≤ b * ∑ i ∈ range n, ((n : ℤ) - i) := by
    rw [sum_mul, mul_sum]
    exact sum_le_sum hone
  have h2 := two_mul_sum_parts n
  refine le_of_mul_le_mul_right ?_ hn'
  calc 2 * (∑ i ∈ range n, share b n i) * n
      = 2 * ((∑ i ∈ range n, share b n i) * n) := by ring
    _ ≤ 2 * (b * ∑ i ∈ range n, ((n : ℤ) - i)) := by linarith
    _ = b * (2 * ∑ i ∈ range n, ((n : ℤ) - i)) := by ring
    _ = b * (n + 1) * n := by rw [h2]; ring

lemma fallingBase_mul_le {s : ℤ} (hs : 0 ≤ s) {n : ℕ} (hn : 0 < n) :
    fallingBase s n * (n + 1) ≤ 2 * s := by
  have hn' : (0 : ℤ) < n := by exact_mod_cast hn
  have hev : ((n + 1) * n : ℤ).tdiv 2 * 2 = (n + 1) * n := by
    refine Int.tdiv_mul_cancel ?_
    rw [mul_comm]
    exact (Int.even_mul_succ_self n).two_dvd
  have hle := tdiv_mul_le (a := s * n) (b := ((n + 1) * n : ℤ).tdiv 2) (by positivity)
    (Int.tdiv_nonneg (by positivity) (by omega))
  refine le_of_mul_le_mul_right ?_ hn'
  calc fallingBase s n * (n + 1) * n = fallingBase s n * ((n + 1) * n) := by ring
    _ = fallingBase s n * (((n + 1) * n : ℤ).tdiv 2 * 2) := by rw [hev]
    _ = fallingBase s n * ((n + 1) * n : ℤ).tdiv 2 * 2 := (mul_assoc _ _ _).symm
    _ ≤ s * n * 2 := by unfold fallingBase; linarith
    _ = 2 * s * n := by ring

/-- **The shares of the falling base of `s` sum to at most `s`.** -/
theorem sum_share_fallingBase_le {s : ℤ} (hs : 0 ≤ s) (n : ℕ) :
    ∑ i ∈ range n, share (fallingBase s n) n i ≤ s := by
  rcases Nat.eq_zero_or_pos n with rfl | hn
  · simpa using hs
  · have h1 := two_mul_sum_share_le (fallingBase_nonneg hs n) hn
    have h2 := fallingBase_mul_le hs hn
    linarith

/-! ### In-place additions -/

/-- A total over a list after one entry is changed in place. -/
theorem sum_map_modify {α : Type*} (g : α → ℤ) (f : α → α) {p : ℤ}
    (hf : ∀ a, g (f a) = g a + p) {l : List α} {k : ℕ} (hk : k < l.length) :
    ((l.modify k f).map g).sum = (l.map g).sum + p := by
  induction l generalizing k with
  | nil => simp at hk
  | cons a l ih =>
    cases k with
    | zero => simp [hf]; ring
    | succ k => simp [ih (by simpa using hk)]; ring

/-- A change that a view of the entries does not see leaves the viewed list alone. -/
theorem map_modify_of_view {α β : Type*} (g : α → β) (f : α → α) (hf : ∀ a, g (f a) = g a)
    (l : List α) (k : ℕ) : (l.modify k f).map g = l.map g := by
  induction l generalizing k with
  | nil => simp
  | cons a l ih =>
    cases k with
    | zero => simp [hf]
    | succ k => simp [ih k]

end Newcoin.Lib
