import Mathlib.Algebra.BigOperators.Group.List.Basic
import Mathlib.Data.List.AList

/-!
# Sums by key

Amounts come one after the other, each for a key, and a map keeps the sum for every key.

* `mem_tally`, `lookup_tally`: the keys of the map, and what it keeps for them.
-/

namespace Newcoin.Lib.Tally

variable {K M : Type} [DecidableEq K] [AddCommMonoid M]

/-- An amount for a key that is new, or that has a sum already. -/
def add (t : AList fun _ : K => M) (p : K × M) : AList fun _ : K => M :=
  t.insert p.1 ((t.lookup p.1).elim p.2 (· + p.2))

/-- All the amounts. -/
def tally (ps : List (K × M)) (t : AList fun _ : K => M) : AList fun _ : K => M := ps.foldl add t

/-- The sum of the amounts for a key. -/
def total (ps : List (K × M)) (k : K) : M := (ps.map fun p => if p.1 = k then p.2 else 0).sum

variable {ps qs : List (K × M)} {t : AList fun _ : K => M} {k : K}

lemma total_cons (p : K × M) : total (p :: ps) k = (if p.1 = k then p.2 else 0) + total ps k := by
  rw [total, List.map_cons, List.sum_cons, ← total]

lemma tally_append : tally (ps ++ qs) t = tally qs (tally ps t) := List.foldl_append

lemma mem_add {p : K × M} : k ∈ add t p ↔ k = p.1 ∨ k ∈ t := AList.mem_insert t

/-- **The keys** are those that an amount came for. -/
lemma mem_tally : k ∈ tally ps t ↔ k ∈ ps.map Prod.fst ∨ k ∈ t := by
  induction ps generalizing t with
  | nil => simp [tally]
  | cons p ps ih =>
    rw [tally, List.foldl_cons, ← tally, ih, mem_add, List.map_cons, List.mem_cons, or_left_comm, or_assoc]

lemma lookup_add {p : K × M} :
    ((add t p).lookup k).getD 0 = (t.lookup k).getD 0 + if p.1 = k then p.2 else 0 := by
  unfold add
  by_cases hk : p.1 = k
  · subst hk
    rw [AList.lookup_insert, if_pos rfl]
    cases t.lookup p.1 with
    | none => simp
    | some m => rfl
  · rw [AList.lookup_insert_ne (Ne.symm hk), if_neg hk, add_zero]

/-- **What the map keeps** for a key is the sum. -/
lemma lookup_tally : ((tally ps t).lookup k).getD 0 = (t.lookup k).getD 0 + total ps k := by
  induction ps generalizing t with
  | nil => simp [tally, total]
  | cons p ps ih =>
    rw [tally, List.foldl_cons, ← tally, ih, lookup_add, total_cons, add_assoc]

lemma total_flatMap {A : Type} (f : A → List (K × M)) (l : List A) (k : K) :
    total (l.flatMap f) k = (l.map fun a => total (f a) k).sum := by
  induction l with
  | nil => rfl
  | cons a l ih =>
    rw [List.flatMap_cons, total, List.map_append, List.sum_append, ← total, ← total, ih, List.map_cons,
      List.sum_cons]

end Newcoin.Lib.Tally
