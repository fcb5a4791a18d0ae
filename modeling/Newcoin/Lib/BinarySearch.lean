import Mathlib.Order.Compare
import Mathlib.Order.Lattice
import Mathlib.Order.Nat

/-!
# Binary search in a half-open range

`search test lo hi` looks for an index `i` of `[lo, hi)` with `test i = .eq`, where `test i` compares the
key searched for with the `i`-th entry (`probe`).

* `search_eq_some` — what it returns is such an index, in whatever order the entries stand.
* `search_eq_some_iff` — over strictly increasing entries it returns exactly the index of the key.
-/

namespace Newcoin.Lib

def search (test : ℕ → Ordering) (lo hi : ℕ) : Option ℕ :=
  if lo < hi then
    match test (lo + (hi - lo) / 2) with
    | .eq => some (lo + (hi - lo) / 2)
    | .lt => search test lo (lo + (hi - lo) / 2)
    | .gt => search test (lo + (hi - lo) / 2 + 1) hi
  else none
termination_by hi - lo

theorem search_eq_some {test : ℕ → Ordering} {lo hi i : ℕ} (h : search test lo hi = some i) :
    lo ≤ i ∧ i < hi ∧ test i = .eq := by
  fun_induction search test lo hi with
  | case1 lo hi hlt heq =>
    obtain rfl := Option.some.inj h
    exact ⟨by omega, by omega, heq⟩
  | case2 lo hi hlt _ ih =>
    obtain ⟨h1, h2, h3⟩ := ih h
    exact ⟨h1, by omega, h3⟩
  | case3 lo hi hlt _ ih =>
    obtain ⟨h1, h2, h3⟩ := ih h
    exact ⟨by omega, h2, h3⟩
  | case4 => cases h

section Sorted

variable {α : Type*} [LinearOrder α]

/-- The key against entry `i`. -/
def probe (x : α) (entry : ℕ → α) (i : ℕ) : Ordering := cmp x (entry i)

variable {entry : ℕ → α} {x : α} {lo hi i : ℕ}

/-- Nothing to the wrong side of a probe can be the key. -/
lemma search_complete (hs : ∀ j k, lo ≤ j → j < k → k < hi → entry j < entry k) (h1 : lo ≤ i)
    (h2 : i < hi) (hx : entry i = x) :
    search (probe x entry) lo hi = some i := by
  fun_induction search (probe x entry) lo hi with
  | case1 lo hi hlt heq =>
    have hm : entry (lo + (hi - lo) / 2) = entry i := by rw [hx, (cmp_eq_eq_iff _ _).1 heq]
    rcases lt_trichotomy (lo + (hi - lo) / 2) i with hl | hl | hl
    · exact absurd hm (hs _ _ (by omega) hl h2).ne
    · rw [hl]
    · exact absurd hm (hs _ _ h1 hl (by omega)).ne'
  | case2 lo hi hlt hcmp ih =>
    have hm := (cmp_eq_lt_iff _ _).1 hcmp
    refine ih (fun j k hj hjk hk => hs j k hj hjk (by omega)) h1 (Nat.lt_of_not_le fun hl => ?_)
    rcases hl.eq_or_lt with hl | hl
    · rw [hl, hx] at hm
      exact hm.false
    · exact lt_asymm hm (hx ▸ hs _ _ (by omega) hl h2)
  | case3 lo hi hlt hcmp ih =>
    have hm := (cmp_eq_gt_iff _ _).1 hcmp
    refine ih (fun j k hj hjk hk => hs j k (by omega) hjk hk) (Nat.lt_of_not_le fun hl => ?_) h2
    rcases (Nat.le_of_lt_succ (by omega : i < lo + (hi - lo) / 2 + 1)).eq_or_lt with hl | hl
    · rw [← hl, hx] at hm
      exact hm.false
    · exact lt_asymm hm (hx ▸ hs _ _ h1 hl (by omega))
  | case4 => omega

theorem search_eq_some_iff (hs : ∀ j k, lo ≤ j → j < k → k < hi → entry j < entry k) :
    search (probe x entry) lo hi = some i ↔ lo ≤ i ∧ i < hi ∧ entry i = x := by
  constructor
  · intro h
    obtain ⟨h1, h2, h3⟩ := search_eq_some h
    exact ⟨h1, h2, ((cmp_eq_eq_iff _ _).1 h3).symm⟩
  · rintro ⟨h1, h2, h3⟩
    exact search_complete hs h1 h2 h3

end Sorted

end Newcoin.Lib
