import Mathlib.Data.List.TakeWhile
import Mathlib.Data.Nat.Digits.Lemmas

/-!
# Digit strings with leading zeros

A digit string, most significant digit first, is a number together with how many zeros it starts with:
`toDigits b z n` writes the pair, `value b` and `leadingZeros` read it.

* `value_toDigits`, `leadingZeros_toDigits` — the pair is read back as it was written.
* `toDigits_value` — a string over base `b` is written back as it was read.
* `toDigits_eq_cons` — the first digit of a number.
-/

namespace Newcoin.Lib

/-- The number a digit string denotes. -/
def value (b : ℕ) (ds : List ℕ) : ℕ := Nat.ofDigits b ds.reverse

/-- How many zeros a digit string starts with. -/
def leadingZeros (ds : List ℕ) : ℕ := (ds.takeWhile (· == 0)).length

/-- The digit string of a number, behind some zeros. -/
def toDigits (b zeros n : ℕ) : List ℕ := List.replicate zeros 0 ++ (Nat.digits b n).reverse

variable {b : ℕ}

lemma value_replicate_append (zeros : ℕ) (ds : List ℕ) :
    value b (List.replicate zeros 0 ++ ds) = value b ds := by
  rw [value, List.reverse_append, List.reverse_replicate, Nat.ofDigits_append_replicate_zero, value]

theorem value_toDigits (zeros n : ℕ) : value b (toDigits b zeros n) = n := by
  rw [toDigits, value_replicate_append, value, List.reverse_reverse, Nat.ofDigits_digits]

lemma takeWhile_replicate_append {ds : List ℕ} (zeros : ℕ) (h : ∀ d ∈ ds.head?, d ≠ 0) :
    (List.replicate zeros 0 ++ ds).takeWhile (· == 0) = List.replicate zeros 0 := by
  induction zeros with
  | zero =>
    cases ds with
    | nil => rfl
    | cons d ds => exact List.takeWhile_cons_of_neg (by simpa using h d rfl)
  | succ zeros ih => rw [List.replicate_succ, List.cons_append, List.takeWhile_cons_of_pos rfl, ih]

theorem leadingZeros_toDigits (zeros n : ℕ) : leadingZeros (toDigits b zeros n) = zeros := by
  rw [leadingZeros, toDigits, takeWhile_replicate_append, List.length_replicate]
  intro d hd
  rw [List.head?_reverse] at hd
  have hne : Nat.digits b n ≠ [] := by rintro h; rw [h] at hd; cases hd
  rw [List.getLast?_eq_getLast_of_ne_nil hne] at hd
  exact Option.some.inj hd ▸ Nat.getLast_digit_ne_zero b (Nat.digits_ne_nil_iff_ne_zero.1 hne)

/-- The string without its zeros. -/
lemma replicate_leadingZeros (ds : List ℕ) :
    List.replicate (leadingZeros ds) 0 ++ ds.dropWhile (· == 0) = ds := by
  have h : ds.takeWhile (· == 0) = List.replicate (leadingZeros ds) 0 := by
    refine List.eq_replicate_iff.2 ⟨rfl, fun d hd => ?_⟩
    have hz := List.mem_takeWhile_imp hd
    exact eq_of_beq hz
  rw [← h, List.takeWhile_append_dropWhile]

theorem toDigits_value (hb : 1 < b) {ds : List ℕ} (h : ∀ d ∈ ds, d < b) :
    toDigits b (leadingZeros ds) (value b ds) = ds := by
  have hv : value b ds = value b (ds.dropWhile (· == 0)) := by
    conv_lhs => rw [← replicate_leadingZeros ds]
    exact value_replicate_append _ _
  rw [toDigits, hv, value, Nat.digits_ofDigits b hb, List.reverse_reverse, replicate_leadingZeros]
  · intro d hd
    exact h d ((List.dropWhile_suffix _).subset (List.mem_reverse.1 hd))
  · intro hne
    have hne' : ds.dropWhile (· == 0) ≠ [] := by simpa using hne
    rw [List.getLast_reverse]
    simpa using List.head_dropWhile_not (· == 0) hne'

/-- One digit more in front. -/
lemma value_cons (d : ℕ) (ds : List ℕ) : value b (d :: ds) = d * b ^ ds.length + value b ds := by
  rw [value, List.reverse_cons, Nat.ofDigits_append, List.length_reverse, Nat.ofDigits_singleton, value]
  ring

lemma value_lt (hb : 1 < b) {ds : List ℕ} (h : ∀ d ∈ ds, d < b) : value b ds < b ^ ds.length := by
  rw [value, ← List.length_reverse]
  exact Nat.ofDigits_lt_base_pow_length hb fun d hd => h d (List.mem_reverse.1 hd)

/-- **The first digit**, and how many follow it. -/
lemma toDigits_eq_cons {k n : ℕ} (hpos : 0 < n / b ^ k) (hlt : n / b ^ k < b) :
    ∃ ds, toDigits b 0 n = n / b ^ k :: ds ∧ ds.length = k := by
  induction k generalizing n with
  | zero =>
    rw [pow_zero, Nat.div_one] at hpos hlt ⊢
    refine ⟨[], ?_, rfl⟩
    rw [toDigits, Nat.digits_of_lt b n hpos.ne' hlt]
    rfl
  | succ k ih =>
    rw [pow_succ', ← Nat.div_div_eq_div_mul] at hpos hlt ⊢
    obtain ⟨ds, hds, hlen⟩ := ih hpos hlt
    have hn : n ≠ 0 := by
      rintro rfl
      simp at hpos
    refine ⟨ds ++ [n % b], ?_, by rw [List.length_append, hlen]; rfl⟩
    rw [toDigits, Nat.digits_def' (by omega) (Nat.pos_of_ne_zero hn), List.reverse_cons, ← List.append_assoc,
      ← toDigits, hds]
    rfl

end Newcoin.Lib
