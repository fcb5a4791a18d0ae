import Newcoin.UniqueNodeList.ScoreRound
import Mathlib.Algebra.BigOperators.Group.Finset.Basic
import Mathlib.Data.Finset.Dedup

/-!
# The flow of points

Who gets how many points in which round, by key and without a vector: in round `0` the points of the
source, in round `r + 1` what all others hand out of their points of round `r`.

* `flow_nonneg`: points are not negative.
* `score_ne_zero_iff`: who has points in the end.
* `scoreRound_follows`: a round of the scoring vector is a round of the flow.
* `scoreRounds_score`: what a score is in the end.
-/

namespace Newcoin.UniqueNodeList

open Newcoin.Lib

/-! ### By key -/

section Flow

variable {K : Type*} [DecidableEq K]

/-- The points that somebody with this seed and these referrals gives to `k`. -/
def given (seed : ℤ) (referrals : List K) (k : K) : ℤ :=
  (referrals.mapIdx fun i k' => if k' = k then iPoints seed referrals.length i else 0).sum

variable (source : K → ℤ) (refersTo : K → List K) (nodes : Finset K)

/-- The points of a round. -/
def flow : ℕ → K → ℤ
  | 0, k => source k
  | r + 1, k => ∑ j ∈ nodes, given (flow r j) (refersTo j) k

lemma given_zero (referrals : List K) (k : K) : given 0 referrals k = 0 := by
  apply List.sum_eq_zero
  intro x hx
  obtain ⟨i, hi, rfl⟩ := List.mem_mapIdx.1 hx
  simp [iPoints, iBase]

lemma given_nonneg {seed : ℤ} (hs : 0 ≤ seed) (referrals : List K) (k : K) : 0 ≤ given seed referrals k := by
  apply List.sum_nonneg
  intro x hx
  obtain ⟨i, hi, rfl⟩ := List.mem_mapIdx.1 hx
  split
  · rw [iPoints_eq_share]
    exact share_nonneg (fallingBase_nonneg hs _) hi.le
  · exact le_rfl

variable {source refersTo nodes}

theorem flow_nonneg (hsource : ∀ k, 0 ≤ source k) (r : ℕ) (k : K) : 0 ≤ flow source refersTo nodes r k := by
  induction r generalizing k with
  | zero => exact hsource k
  | succ r ih => exact Finset.sum_nonneg fun j _ => given_nonneg (ih j) _ k

/-- A sum of rounds is not zero if one of them is not. -/
theorem score_ne_zero_iff (hsource : ∀ k, 0 ≤ source k) (k : K) {i : ℕ} :
    ∑ q ∈ Finset.range (i + 1), flow source refersTo nodes q k ≠ 0 ↔
      ∃ r ≤ i, flow source refersTo nodes r k ≠ 0 := by
  rw [Ne, Finset.sum_eq_zero_iff_of_nonneg fun q _ => flow_nonneg hsource q k]
  simp

/-- Renaming the keys one to one changes nothing. -/
lemma given_map {L : Type*} [DecidableEq L] {key : L → Option K} {seed : ℤ} {is : List L} {ks : List K} {i : L}
    {k : K} (hkeys : is.map key = ks.map some) (hi : key i = some k)
    (hinj : ∀ j, key j = some k → j = i) : given seed is i = given seed ks k := by
  have hlen : is.length = ks.length := by simpa using congrArg List.length hkeys
  refine congrArg List.sum (List.ext_getElem (by simpa using hlen) fun n h1 h2 => ?_)
  rw [List.length_mapIdx] at h1 h2
  have hn : key (is.get ⟨n, h1⟩) = some (ks.get ⟨n, h2⟩) := by
    have := congrArg (fun l => l[n]?) hkeys
    simpa [List.getElem?_eq_getElem h1, List.getElem?_eq_getElem h2] using this
  have hiff : is.get ⟨n, h1⟩ = i ↔ ks.get ⟨n, h2⟩ = k := by
    constructor
    · intro h
      rw [h, hi] at hn
      exact (Option.some_inj.1 hn).symm
    · intro h
      exact hinj _ (h ▸ hn)
  simp only [List.getElem_mapIdx, hlen]
  exact if_congr hiff rfl rfl

end Flow

/-! ### By position -/

/-- What a node hands out to position `k`. -/
def ScoreNode.handsTo (k : ℕ) (sn : ScoreNode) : ℤ := (sn.handOut.map fun e => if e.1 = k then e.2 else 0).sum

lemma handsTo_eq_given (sn : ScoreNode) (k : ℕ) : sn.handsTo k = given sn.iRoundSeed sn.viReferrals k := by
  unfold ScoreNode.handsTo ScoreNode.handOut
  split
  · refine congrArg List.sum (List.ext_getElem (by simp) fun i h1 h2 => ?_)
    simp
  next h =>
    rw [not_and_or, not_not, not_not] at h
    rcases h with h | h
    · rw [h, given_zero]
      rfl
    · rw [List.length_eq_zero_iff.1 h]
      rfl

lemma receive_receive (p q : ℤ) (sn : ScoreNode) : (sn.receive p).receive q = sn.receive (p + q) := by
  simp [ScoreNode.receive, add_assoc]

lemma receive_zero : ScoreNode.receive 0 = id := by
  funext sn
  simp [ScoreNode.receive]

lemma foldl_receive_getElem? (es : List (ℕ × ℤ)) (vsn : List ScoreNode) (k : ℕ) :
    (es.foldl (fun vsn e => vsn.modify e.1 (ScoreNode.receive e.2)) vsn)[k]? =
      vsn[k]?.map (ScoreNode.receive (es.map fun e => if e.1 = k then e.2 else 0).sum) := by
  induction es generalizing vsn with
  | nil => simp [receive_zero]
  | cons e es ih =>
    rw [List.foldl_cons, ih, List.getElem?_modify, Option.map_eq_map, Option.map_map, List.map_cons, List.sum_cons]
    refine congrArg (Option.map · _) (funext fun sn => ?_)
    by_cases hek : e.1 = k
    · simp [hek, receive_receive]
    · simp [hek]

lemma foldl_distribute_getElem? {vsn : List ScoreNode} (js : List ℕ) (hjs : ∀ j ∈ js, j < vsn.length)
    (cur : List ScoreNode) (hf : cur.map ScoreNode.frame = vsn.map ScoreNode.frame) (k : ℕ) :
    (js.foldl distribute cur)[k]? =
      cur[k]?.map (ScoreNode.receive (js.map fun j => (vsn[j]?.map (ScoreNode.handsTo k)).getD 0).sum) := by
  induction js generalizing cur with
  | nil => simp [receive_zero]
  | cons j js ih =>
    obtain ⟨sn, hsn, hd⟩ := distribute_of_frame hf (hjs j List.mem_cons_self)
    rw [List.foldl_cons, ih (fun j' hj' => hjs j' (List.mem_cons_of_mem _ hj')) _
      ((distribute_frame cur j).trans hf), hd, foldl_receive_getElem?, Option.map_map, List.map_cons,
      List.sum_cons, hsn]
    refine congrArg (Option.map · _) (funext fun sn' => ?_)
    exact receive_receive _ _ sn'

/-- **What a node has received** is what all nodes hand out to its position. -/
theorem distributeAll_getElem? (vsn : List ScoreNode) (k : ℕ) :
    (distributeAll vsn)[k]? = vsn[k]?.map (ScoreNode.receive (vsn.map (ScoreNode.handsTo k)).sum) := by
  rw [distributeAll, foldl_distribute_getElem? _ (fun _ hj => List.mem_range.1 hj) vsn rfl, sum_range_getElem?]

/-! ### The vector follows the flow -/

/-- The key at a position. -/
def keyAt (vsn : List ScoreNode) (i : ℕ) : Option Bytes := vsn[i]?.map ScoreNode.strValidator

/-- A vector before round `r + 1`: its keys are the nodes, its positions stand for the keys referred to,
its seeds are the points of round `r`, and its scores are the points so far. -/
structure Follows (source : Bytes → ℤ) (refersTo : Bytes → List Bytes) (nodes : Finset Bytes) (r : ℕ)
    (vsn : List ScoreNode) : Prop where
  keys : (vsn.map ScoreNode.strValidator).toFinset = nodes
  nodup : (vsn.map ScoreNode.strValidator).Nodup
  refers : ∀ sn ∈ vsn, sn.viReferrals.map (keyAt vsn) = (refersTo sn.strValidator).map some
  seed : ∀ sn ∈ vsn, sn.iRoundSeed = flow source refersTo nodes r sn.strValidator
  settled : ∀ sn ∈ vsn, sn.iRoundScore = 0
  score : ∀ sn ∈ vsn, sn.iScore = ∑ q ∈ Finset.range (r + 1), flow source refersTo nodes q sn.strValidator

section

variable {source : Bytes → ℤ} {refersTo : Bytes → List Bytes} {nodes : Finset Bytes} {r : ℕ}
  {vsn : List ScoreNode}

lemma keyAt_inj (h : (vsn.map ScoreNode.strValidator).Nodup) {i j : ℕ} {k : Bytes} (hi : keyAt vsn i = some k)
    (hj : keyAt vsn j = some k) : j = i := by
  rw [keyAt, ← List.getElem?_map] at hi hj
  obtain ⟨hi', hik⟩ := List.getElem?_eq_some_iff.1 hi
  obtain ⟨hj', hjk⟩ := List.getElem?_eq_some_iff.1 hj
  exact h.getElem_inj_iff.1 (hjk.trans hik.symm)

/-- What a position receives is what its key receives. -/
lemma received_eq_flow (h : Follows source refersTo nodes r vsn) {i : ℕ} {k : Bytes} (hi : keyAt vsn i = some k) :
    (vsn.map (ScoreNode.handsTo i)).sum = flow source refersTo nodes (r + 1) k := by
  rw [flow, ← h.keys, List.sum_toFinset _ h.nodup, List.map_map]
  refine congrArg List.sum (List.map_congr_left fun sn hsn => ?_)
  rw [handsTo_eq_given, given_map (h.refers sn hsn) hi fun j hj => keyAt_inj h.nodup hi hj, h.seed sn hsn, h.keys]
  rfl

lemma scoreRound_getElem? (vsn : List ScoreNode) (i : ℕ) :
    (scoreRound vsn).2[i]? =
      vsn[i]?.map fun sn => (sn.receive (vsn.map (ScoreNode.handsTo i)).sum).settle := by
  rw [scoreRound, List.getElem?_map, distributeAll_getElem?, Option.map_map]
  rfl

lemma keyAt_scoreRound (vsn : List ScoreNode) : keyAt (scoreRound vsn).2 = keyAt vsn := by
  funext i
  rw [keyAt, scoreRound_getElem?, Option.map_map, keyAt]
  rfl

lemma strValidator_scoreRound (vsn : List ScoreNode) :
    (scoreRound vsn).2.map ScoreNode.strValidator = vsn.map ScoreNode.strValidator := by
  refine List.ext_getElem? fun i => ?_
  rw [List.getElem?_map, List.getElem?_map]
  exact congrFun (keyAt_scoreRound vsn) i

/-- **A round of the vector is a round of the flow.** -/
theorem scoreRound_follows (h : Follows source refersTo nodes r vsn) :
    Follows source refersTo nodes (r + 1) (scoreRound vsn).2 := by
  have hback : ∀ sn' ∈ (scoreRound vsn).2, ∃ sn ∈ vsn,
      sn' = (sn.receive (flow source refersTo nodes (r + 1) sn.strValidator)).settle := by
    intro sn' hsn'
    obtain ⟨i, hi⟩ := List.mem_iff_getElem?.1 hsn'
    rw [scoreRound_getElem?] at hi
    obtain ⟨sn, hsn, rfl⟩ := Option.map_eq_some_iff.1 hi
    refine ⟨sn, List.mem_iff_getElem?.2 ⟨i, hsn⟩, ?_⟩
    rw [received_eq_flow h (show keyAt vsn i = some sn.strValidator by rw [keyAt, hsn]; rfl)]
  constructor
  · rw [strValidator_scoreRound]
    exact h.keys
  · rw [strValidator_scoreRound]
    exact h.nodup
  · intro sn' hsn'
    obtain ⟨sn, hsn, rfl⟩ := hback sn' hsn'
    rw [keyAt_scoreRound]
    exact h.refers sn hsn
  · intro sn' hsn'
    obtain ⟨sn, hsn, rfl⟩ := hback sn' hsn'
    simp [ScoreNode.receive, ScoreNode.settle, h.settled sn hsn]
  · intro sn' hsn'
    obtain ⟨sn, hsn, rfl⟩ := hback sn' hsn'
    rfl
  · intro sn' hsn'
    obtain ⟨sn, hsn, rfl⟩ := hback sn' hsn'
    rw [Finset.sum_range_succ]
    simp [ScoreNode.receive, ScoreNode.settle, h.settled sn hsn, h.score sn hsn]

theorem rounds_follows (h : Follows source refersTo nodes r vsn) (i : ℕ) :
    Follows source refersTo nodes (r + i) (rounds i vsn) := by
  induction i with
  | zero => exact h
  | succ i ih =>
    rw [rounds_succ]
    exact scoreRound_follows ih

lemma strValidator_rounds (i : ℕ) (vsn : List ScoreNode) :
    (rounds i vsn).map ScoreNode.strValidator = vsn.map ScoreNode.strValidator := by
  induction i with
  | zero => rfl
  | succ i ih => rw [rounds_succ, strValidator_scoreRound, ih]

/-- **What a score is in the end**: the points of all rounds, whether or not the loop stops early. -/
theorem scoreRounds_score (i : ℕ) {vsn : List ScoreNode} {r : ℕ} (h : Follows source refersTo nodes r vsn) :
    (scoreRounds i vsn).map ScoreNode.strValidator = vsn.map ScoreNode.strValidator ∧
      ∀ sn ∈ scoreRounds i vsn,
        sn.iScore = ∑ q ∈ Finset.range (r + i + 1), flow source refersTo nodes q sn.strValidator := by
  rw [scoreRounds_eq]
  exact ⟨strValidator_rounds i vsn, (rounds_follows h i).score⟩

end

end Newcoin.UniqueNodeList
