import Newcoin.UniqueNodeList.TrustFlow
import Mathlib.Data.List.FinRange
import Mathlib.Logic.Equiv.Basic

/-!
# Node numbers

The scoring vector with its nodes in another order, every referral renamed with them.  A round gives the
same scores: what a node receives is a sum over all nodes, whatever their order.

* `scoreRound_permute` — one round.
* `scores_without_numbers` — any number of rounds.
-/

namespace Newcoin.UniqueNodeList

/-- The position that `k` moves to; there are `n`. -/
def newPosition {n : ℕ} (σ : Equiv.Perm (Fin n)) (k : ℕ) : ℕ := if h : k < n then σ ⟨k, h⟩ else k

/-- The referrals are renamed. -/
def ScoreNode.rename (f : ℕ → ℕ) (sn : ScoreNode) : ScoreNode := { sn with viReferrals := sn.viReferrals.map f }

/-- The node at each position `k` moves to `σ k`. -/
def permute {n : ℕ} (σ : Equiv.Perm (Fin n)) (vsnNodes : List ScoreNode) : List ScoreNode :=
  (List.finRange n).filterMap fun i => vsnNodes[(σ.symm i : ℕ)]?.map (ScoreNode.rename (newPosition σ))

example : (permute (Equiv.swap 0 1 : Equiv.Perm (Fin 2)) [⟨7, 0, 7, -1, [1], [0, 1]⟩, ⟨5, 0, 5, -1, [2], [0]⟩]) =
    [⟨5, 0, 5, -1, [2], [1]⟩, ⟨7, 0, 7, -1, [1], [1, 0]⟩] := by decide

variable {n : ℕ} (σ : Equiv.Perm (Fin n)) {vsn : List ScoreNode}

lemma newPosition_fin (i : Fin n) : newPosition σ i = σ i := dif_pos i.isLt

lemma newPosition_of_le {k : ℕ} (hk : n ≤ k) : newPosition σ k = k := dif_neg (not_lt.2 hk)

lemma newPosition_injective : Function.Injective (newPosition σ) := by
  intro k l hkl
  rcases lt_or_ge k n with hk | hk <;> rcases lt_or_ge l n with hl | hl
  · rw [newPosition_fin σ ⟨k, hk⟩, newPosition_fin σ ⟨l, hl⟩] at hkl
    exact congrArg Fin.val (σ.injective (Fin.ext hkl))
  · rw [newPosition_fin σ ⟨k, hk⟩, newPosition_of_le σ hl] at hkl
    have := (σ ⟨k, hk⟩).isLt
    omega
  · rw [newPosition_of_le σ hk, newPosition_fin σ ⟨l, hl⟩] at hkl
    have := (σ ⟨l, hl⟩).isLt
    omega
  · rwa [newPosition_of_le σ hk, newPosition_of_le σ hl] at hkl

/-! ### The permuted vector -/

lemma permute_eq (h : vsn.length = n) :
    permute σ vsn = (List.finRange n).map fun i =>
      (vsn.get ((σ.symm i).cast h.symm)).rename (newPosition σ) := by
  rw [permute, ← List.filterMap_eq_map]
  refine List.filterMap_congr fun i _ => ?_
  rw [List.getElem?_eq_getElem (h ▸ (σ.symm i).isLt)]
  rfl

lemma permute_getElem? (h : vsn.length = n) (i : Fin n) :
    (permute σ vsn)[(i : ℕ)]? = vsn[(σ.symm i : ℕ)]?.map (ScoreNode.rename (newPosition σ)) := by
  rw [permute_eq σ h, List.getElem?_map, List.getElem?_eq_getElem (by simp),
    List.getElem?_eq_getElem (h ▸ (σ.symm i).isLt)]
  simp

lemma length_permute (h : vsn.length = n) : (permute σ vsn).length = n := by
  rw [permute_eq σ h, List.length_map, List.length_finRange]

/-- **The nodes are the same**, in another order. -/
lemma permute_perm (h : vsn.length = n) : (permute σ vsn).Perm (vsn.map (ScoreNode.rename (newPosition σ))) := by
  subst h
  have hnodes : ∀ f : ScoreNode → ScoreNode, vsn.map f = List.ofFn fun i => f (vsn.get i) := by
    intro f
    calc vsn.map f = (List.ofFn vsn.get).map f := by rw [List.ofFn_get]
      _ = List.ofFn fun i => f (vsn.get i) := List.map_ofFn
  rw [permute_eq σ rfl, hnodes, ← List.ofFn_eq_map]
  exact Equiv.Perm.ofFn_comp_perm σ.symm fun i => (vsn.get i).rename (newPosition σ)

/-! ### A round -/

/-- What a node hands out to a position it hands out under the position's new number. -/
lemma handsTo_rename {f : ℕ → ℕ} (hf : Function.Injective f) (sn : ScoreNode) (k : ℕ) :
    (sn.rename f).handsTo (f k) = sn.handsTo k := by
  have hkeys : sn.viReferrals.map (some ∘ f) = (sn.viReferrals.map f).map some := (List.map_map ..).symm
  rw [handsTo_eq_given, handsTo_eq_given]
  exact (given_map hkeys rfl fun j hj => hf (Option.some_inj.1 hj)).symm

lemma received_permute (h : vsn.length = n) (k : ℕ) :
    ((permute σ vsn).map (ScoreNode.handsTo (newPosition σ k))).sum = (vsn.map (ScoreNode.handsTo k)).sum := by
  rw [((permute_perm σ h).map _).sum_eq, List.map_map]
  exact congrArg List.sum (List.map_congr_left fun sn _ => handsTo_rename (newPosition_injective σ) sn k)

lemma length_distributeAll (vsn : List ScoreNode) : (distributeAll vsn).length = vsn.length :=
  length_of_frame (foldl_distribute_frame _ _)

/-- **The first loop** hands out the same points, whatever the order of the nodes. -/
lemma distributeAll_permute (h : vsn.length = n) :
    distributeAll (permute σ vsn) = permute σ (distributeAll vsn) := by
  have hlen : (distributeAll vsn).length = n := (length_distributeAll vsn).trans h
  refine List.ext_getElem? fun k => ?_
  rcases lt_or_ge k n with hk | hk
  · have hnumber : newPosition σ (σ.symm ⟨k, hk⟩) = k := by rw [newPosition_fin, σ.apply_symm_apply]
    have hreceived := received_permute σ h (σ.symm ⟨k, hk⟩)
    rw [hnumber] at hreceived
    rw [distributeAll_getElem?, hreceived, permute_getElem? σ h ⟨k, hk⟩, permute_getElem? σ hlen ⟨k, hk⟩,
      distributeAll_getElem?, Option.map_map, Option.map_map]
    rfl
  · rw [List.getElem?_eq_none, List.getElem?_eq_none]
    · rwa [length_permute σ hlen]
    · rwa [length_distributeAll, length_permute σ h]

lemma map_settle_permute (vsn : List ScoreNode) :
    (permute σ vsn).map ScoreNode.settle = permute σ (vsn.map ScoreNode.settle) := by
  rw [permute, permute, List.map_filterMap]
  simp only [List.getElem?_map, Option.map_map]
  rfl

theorem scoreRound_permute (h : vsn.length = n) :
    scoreRound (permute σ vsn) = ((scoreRound vsn).1, permute σ (scoreRound vsn).2) := by
  have hany : ∀ vsn : List ScoreNode, vsn.length = n →
      (permute σ vsn).any (fun sn => sn.iRoundScore ≠ 0) = vsn.any fun sn => sn.iRoundScore ≠ 0 := by
    intro vsn h
    rw [(permute_perm σ h).any_eq, List.any_map]
    rfl
  have hlen : (distributeAll vsn).length = n := (length_distributeAll vsn).trans h
  rw [scoreRound, scoreRound, distributeAll_permute σ h]
  exact Prod.ext (hany _ hlen) (map_settle_permute σ _)

/-! ### Any number of rounds -/

lemma length_rounds (r : ℕ) (vsn : List ScoreNode) : (rounds r vsn).length = vsn.length := by
  simpa using congrArg List.length (strValidator_rounds r vsn)

lemma rounds_permute (h : vsn.length = n) (r : ℕ) : rounds r (permute σ vsn) = permute σ (rounds r vsn) := by
  induction r with
  | zero => rfl
  | succ r ih => rw [rounds_succ, rounds_succ, ih, scoreRound_permute σ ((length_rounds r vsn).trans h)]

/-- **Scores do not depend on node numbers**: after any number of rounds the permuted vector is the
permutation of the other one, and the next round returns the same. -/
theorem scores_without_numbers (vsnNodes : List ScoreNode) (σ : Equiv.Perm (Fin vsnNodes.length)) (r : ℕ) :
    rounds r (permute σ vsnNodes) = permute σ (rounds r vsnNodes) ∧
      (scoreRound (rounds r (permute σ vsnNodes))).1 = (scoreRound (rounds r vsnNodes)).1 := by
  have hrounds := rounds_permute σ rfl r
  refine ⟨hrounds, ?_⟩
  rw [hrounds, scoreRound_permute σ (length_rounds r vsnNodes)]

end Newcoin.UniqueNodeList
