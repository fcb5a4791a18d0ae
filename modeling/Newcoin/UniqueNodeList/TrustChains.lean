import Newcoin.UniqueNodeList.ReferralWalk
import Newcoin.UniqueNodeList.SharedKeys
import Newcoin.UniqueNodeList.TrustedList
import Mathlib.Algebra.BigOperators.Fin

/-!
# What trust rests on

Points reach a validator along referrals only, from a seed whose source is worth points, and in at most
`SCORE_ROUNDS` steps.  So whoever is not referred to gets nothing, however many keys it makes.

* `exists_of_flow_ne_zero`, `sum_flow_le`, `flow_congr`: the three facts about any flow of points.
* `scoreCompute_score`: the scores in the table are those of the flow.
* `trusted_have_chains`: who is loaded again has a chain of referrals.
* `points_of_set_le`: the points of a set of keys are bounded by what others give to it.
* `only_chains_matter`: what the others publish changes no score.
-/

namespace Newcoin.UniqueNodeList

open Lib Lib.Sql NewcoinAddress

/-! ### Any flow of points -/

section Flow

variable {K : Type*} [DecidableEq K]

/-- What goes into `S` from the others, in the round after `r`. -/
def entering (source : K → ℤ) (refersTo : K → List K) (nodes S : Finset K) (r : ℕ) : ℤ :=
  ∑ j ∈ nodes \ S, ∑ k ∈ S, given (flow source refersTo nodes r j) (refersTo j) k

lemma given_eq_sum (seed : ℤ) (referrals : List K) (k : K) : given seed referrals k =
    ∑ i : Fin referrals.length, if referrals.get i = k then iPoints seed referrals.length i else 0 := by
  rw [given, ← Fin.sum_ofFn]
  exact congrArg List.sum (List.ext_getElem (by simp) fun i h1 h2 => by simp)

lemma given_of_notMem (seed : ℤ) {referrals : List K} {k : K} (hk : k ∉ referrals) : given seed referrals k = 0 := by
  rw [given_eq_sum]
  refine Finset.sum_eq_zero fun i _ => if_neg ?_
  rintro rfl
  exact hk (List.get_mem referrals i)

/-- **Nobody gives a set of keys more than it has.** -/
lemma sum_given_le {seed : ℤ} (hs : 0 ≤ seed) (referrals : List K) (S : Finset K) :
    ∑ k ∈ S, given seed referrals k ≤ seed := by
  have hnonneg : ∀ i : Fin referrals.length, 0 ≤ iPoints seed referrals.length i := fun i => by
    rw [iPoints_eq_share]
    exact share_nonneg (fallingBase_nonneg hs _) i.2.le
  calc ∑ k ∈ S, given seed referrals k
      = ∑ i : Fin referrals.length, ∑ k ∈ S, if referrals.get i = k then iPoints seed referrals.length i else 0 := by
        simp only [given_eq_sum]
        exact Finset.sum_comm
    _ ≤ ∑ i : Fin referrals.length, iPoints seed referrals.length i := by
        refine Finset.sum_le_sum fun i _ => ?_
        rw [Finset.sum_ite_eq]
        split
        · exact le_rfl
        · exact hnonneg i
    _ = ∑ i ∈ Finset.range referrals.length, iPoints seed referrals.length i :=
        Fin.sum_univ_eq_sum_range (fun i => iPoints seed referrals.length i) _
    _ ≤ seed := by
        simp only [iPoints_eq_share]
        exact sum_share_fallingBase_le hs _

variable {source source' : K → ℤ} {refersTo refersTo' : K → List K} {nodes nodes' : Finset K}

/-- Points come from somebody. -/
lemma exists_of_flow_ne_zero {r : ℕ} {k : K} (h : flow source refersTo nodes (r + 1) k ≠ 0) :
    ∃ j ∈ nodes, flow source refersTo nodes r j ≠ 0 ∧ k ∈ refersTo j := by
  obtain ⟨j, hj, hgiven⟩ := Finset.exists_ne_zero_of_sum_ne_zero h
  refine ⟨j, hj, ?_, ?_⟩
  · intro hzero
    rw [hzero, given_zero] at hgiven
    exact hgiven rfl
  · by_contra hk
    exact hgiven (given_of_notMem _ hk)

/-- One round: what a set of keys has was in it, or comes from the others. -/
lemma sum_flow_succ_le (hsource : ∀ k, 0 ≤ source k) (S : Finset K) (r : ℕ) :
    ∑ k ∈ S, flow source refersTo nodes (r + 1) k ≤
      ∑ k ∈ S, flow source refersTo nodes r k + entering source refersTo nodes S r := by
  have hflow : ∀ j, 0 ≤ flow source refersTo nodes r j := flow_nonneg hsource r
  have hinside : ∑ j ∈ nodes ∩ S, ∑ k ∈ S, given (flow source refersTo nodes r j) (refersTo j) k ≤
      ∑ k ∈ S, flow source refersTo nodes r k :=
    calc ∑ j ∈ nodes ∩ S, ∑ k ∈ S, given (flow source refersTo nodes r j) (refersTo j) k
        ≤ ∑ j ∈ nodes ∩ S, flow source refersTo nodes r j := Finset.sum_le_sum fun j _ => sum_given_le (hflow j) _ S
      _ ≤ ∑ j ∈ S, flow source refersTo nodes r j :=
          Finset.sum_le_sum_of_subset_of_nonneg Finset.inter_subset_right fun j _ _ => hflow j
  have hsplit : ∑ k ∈ S, flow source refersTo nodes (r + 1) k =
      ∑ j ∈ nodes ∩ S, ∑ k ∈ S, given (flow source refersTo nodes r j) (refersTo j) k +
        entering source refersTo nodes S r := by
    simp only [flow, entering]
    rw [Finset.sum_comm]
    exact (Finset.sum_inter_add_sum_sdiff nodes S _).symm
  rw [hsplit]
  exact add_le_add_left hinside _

/-- Any number of rounds. -/
lemma sum_flow_round_le (hsource : ∀ k, 0 ≤ source k) (S : Finset K) (r : ℕ) :
    ∑ k ∈ S, flow source refersTo nodes r k ≤
      ∑ k ∈ S, source k + ∑ q ∈ Finset.range r, entering source refersTo nodes S q := by
  induction r with
  | zero => simp [flow]
  | succ r ih =>
    rw [Finset.sum_range_succ]
    linarith [@sum_flow_succ_le _ _ source refersTo nodes hsource S r]

/-- **The points of a set of keys**, over all rounds: those of its own seeds once for each round, and what comes
from others once for each round that is left. -/
theorem sum_flow_le (hsource : ∀ k, 0 ≤ source k) (S : Finset K) (R : ℕ) :
    ∑ k ∈ S, ∑ q ∈ Finset.range (R + 1), flow source refersTo nodes q k ≤
      (R + 1) * ∑ k ∈ S, source k + ∑ q ∈ Finset.range R, (R - q : ℤ) * entering source refersTo nodes S q := by
  induction R with
  | zero => simp [flow]
  | succ R ih =>
    have hround := @sum_flow_round_le _ _ source refersTo nodes hsource S (R + 1)
    have hlonger : ∑ q ∈ Finset.range (R + 1), (((R + 1 : ℕ) : ℤ) - q) * entering source refersTo nodes S q =
        ∑ q ∈ Finset.range R, ((R : ℤ) - q) * entering source refersTo nodes S q +
          ∑ q ∈ Finset.range (R + 1), entering source refersTo nodes S q := by
      rw [Finset.sum_range_succ, Finset.sum_range_succ _ R, ← add_assoc, ← Finset.sum_add_distrib]
      congr 1
      · refine Finset.sum_congr rfl fun q _ => ?_
        push_cast
        ring
      · push_cast
        ring
    have hlast : ∑ k ∈ S, ∑ q ∈ Finset.range (R + 1 + 1), flow source refersTo nodes q k =
        ∑ k ∈ S, ∑ q ∈ Finset.range (R + 1), flow source refersTo nodes q k +
          ∑ k ∈ S, flow source refersTo nodes (R + 1) k := by
      simp only [Finset.sum_range_succ _ (R + 1), Finset.sum_add_distrib]
    rw [hlonger, hlast]
    push_cast
    linarith

/-- **Lists of those who have no points do not matter**: two flows agree if those who have points to hand out
have the same list in both. -/
theorem flow_congr {R : ℕ} (hsource : ∀ k, source' k = source k)
    (hsame : ∀ r < R, ∀ j, flow source refersTo nodes r j ≠ 0 → refersTo' j = refersTo j ∧ (j ∈ nodes' ↔ j ∈ nodes)) :
    ∀ r ≤ R, ∀ k, flow source' refersTo' nodes' r k = flow source refersTo nodes r k := by
  intro r
  induction r with
  | zero => exact fun _ k => hsource k
  | succ r ih =>
    intro hr k
    have hprev := ih (by omega)
    have hpart : ∀ (s : Finset K) (f : K → List K),
        ∑ j ∈ s, given (flow source refersTo nodes r j) (f j) k =
          ∑ j ∈ s with flow source refersTo nodes r j ≠ 0, given (flow source refersTo nodes r j) (f j) k := by
      intro s f
      symm
      apply Finset.sum_filter_of_ne
      intro j _ hgiven hzero
      rw [hzero, given_zero] at hgiven
      exact hgiven rfl
    simp only [flow, hprev]
    rw [hpart nodes', hpart nodes]
    refine Finset.sum_congr ?_ fun j hj => ?_
    · ext j
      simp only [Finset.mem_filter]
      exact and_congr_left fun hj => (hsame r (by omega) j hj).2
    · rw [(hsame r (by omega) j (Finset.mem_filter.1 hj).2).1]

end Flow

/-! ### Chains of referrals -/

variable {env : Crypto} {db db' : Wallet}

/-- `k` is reached by `r` referrals from a seed whose source is worth points. -/
inductive Referred (env : Crypto) (db : Wallet) : ℕ → Bytes → Prop
  | seed {k : Bytes} {iScore : ℤ} (h : (k, iScore) ∈ sources db) (hscore : 0 < iScore) : Referred env db 0 k
  | referral {r : ℕ} {j k : Bytes} (hj : Referred env db r j) (hk : k ∈ refersTo env db j) :
      Referred env db (r + 1) k

lemma known_of_domainKey {d k : Bytes} (h : domainKey d db.SeedDomains.rows.reverse = some k) : Known env db k := by
  obtain ⟨r, hr, hkey⟩ := leadsTo_of_domainKey h
  apply Known.seed
  rw [sources, List.map_append, List.mem_append]
  exact .inl (mem_domainSources.2 ⟨d, r, List.mem_reverse.1 hr, hkey⟩)

/-- Who is referred to by somebody known is known. -/
lemma known_of_refersTo {j k : Bytes} (hj : Known env db j) (hk : k ∈ refersTo env db j) : Known env db k := by
  obtain ⟨r, hr, hmem⟩ := List.mem_flatMap.1 hk
  have hresolve : resolve env db r = some k := by
    simpa using (List.mem_filter.1 hmem).1
  unfold resolve at hresolve
  split at hresolve
  next hkey =>
    obtain rfl := Option.some_inj.1 hresolve
    exact hj.referral hr hkey
  · exact known_of_domainKey hresolve

lemma Referred.known {r : ℕ} {k : Bytes} (h : Referred env db r k) : Known env db k := by
  induction h with
  | seed h hscore => exact .seed (List.mem_map_of_mem h)
  | referral hj hk ih => exact known_of_refersTo ih hk

lemma exists_source_of_bestOf_pos {items : List (Bytes × ℤ)} {k : Bytes} (h : bestOf items k ≠ 0) :
    ∃ n, (k, n) ∈ items ∧ 0 < n := by
  by_contra hnone
  push Not at hnone
  apply h
  unfold bestOf
  have hall : ∀ n ∈ (items.filter (·.1 = k)).map Prod.snd, n ≤ 0 := by
    intro n hn
    obtain ⟨⟨k', n'⟩, he, rfl⟩ := List.mem_map.1 hn
    obtain ⟨hmem, hk⟩ := List.mem_filter.1 he
    obtain rfl : k' = k := by simpa using hk
    exact hnone n' hmem
  generalize (items.filter (·.1 = k)).map Prod.snd = l at hall
  induction l with
  | nil => rfl
  | cons n l ih =>
    rw [List.foldr_cons, ih fun m hm => hall m (List.mem_cons_of_mem _ hm)]
    exact max_eq_right (hall n List.mem_cons_self)

/-- Points come along a chain. -/
lemma referred_of_flow {nodes : Finset Bytes} {r : ℕ} {k : Bytes}
    (h : flow (bestOf (sources db)) (refersTo env db) nodes r k ≠ 0) : Referred env db r k := by
  induction r generalizing k with
  | zero =>
    obtain ⟨n, hmem, hpos⟩ := exists_source_of_bestOf_pos h
    exact .seed hmem hpos
  | succ r ih =>
    obtain ⟨j, -, hj, hk⟩ := exists_of_flow_ne_zero h
    exact (ih hj).referral hk

/-! ### The scores in the table -/

/-- `SELECT Score FROM TrustedNodes` for a public key, `0` where there is no row. -/
def scoreIn (t : Table TrustedNode.PublicKey) (k : Bytes) : ℤ := ((t.find (.blob k)).map TrustedNode.Score).getD 0

lemma scoreIn_clearScores (t : Table TrustedNode.PublicKey) (k : Bytes) : scoreIn (clearScores t) k = 0 := by
  unfold scoreIn
  cases h : (clearScores t).find (.blob k) with
  | none => rfl
  | some r => simpa using score_clearScores (Table.find_eq_some.1 h).1

/-- The nodes have their scores, and nobody else has any. -/
lemma scoreIn_persist {st : ScoreState} (hnodup : (st.vsnNodes.map ScoreNode.strValidator).Nodup)
    (t : Table TrustedNode.PublicKey) :
    (∀ sn ∈ st.vsnNodes, scoreIn (persist st t).1 sn.strValidator = sn.iScore) ∧
      ∀ k ∉ st.vsnNodes.map ScoreNode.strValidator, scoreIn (persist st t).1 k = 0 := by
  unfold persist
  dsimp only
  have hpairs := foldl_loadSeen
    ((clearScores t).select fun r => st.vsnNodes.any fun sn => r.PublicKey = .blob sn.strValidator) st
  have hnames := strValidator_foldl_loadSeen
    ((clearScores t).select fun r => st.vsnNodes.any fun sn => r.PublicKey = .blob sn.strValidator) st
  generalize (List.foldl loadSeen st _).vsnNodes = vsn at hpairs hnames
  have hkeys : (vsn.map trustedNode).map TrustedNode.PublicKey = (vsn.map ScoreNode.strValidator).map Value.blob := by
    simp [trustedNode, Function.comp_def]
  have hnodup' : ((vsn.map trustedNode).map TrustedNode.PublicKey).Nodup := by
    rw [hkeys, hnames]
    exact hnodup.map fun _ _ h => Value.blob.inj h
  constructor
  · intro sn hsn
    have hpair : (sn.strValidator, sn.iScore) ∈ vsn.map fun sn => (sn.strValidator, sn.iScore) := by
      rw [hpairs]
      exact List.mem_map_of_mem hsn
    obtain ⟨sn', hsn', hsame⟩ := List.mem_map.1 hpair
    obtain ⟨hkey, hscore⟩ := Prod.mk.inj hsame
    have hfind : ((clearScores t).replaceAll (vsn.map trustedNode)).find (.blob sn.strValidator) =
        some (trustedNode sn') := by
      apply Table.find_eq_some.2
      exact ⟨(Table.mem_replaceAll hnodup').2 (.inl (List.mem_map_of_mem hsn')), congrArg Value.blob hkey⟩
    rw [scoreIn, hfind]
    exact hscore
  · intro k hk
    have hnew : Value.blob k ∉ (vsn.map trustedNode).map TrustedNode.PublicKey := by
      rw [hkeys, hnames]
      simpa using hk
    rw [scoreIn, Table.find_replaceAll_of_notMem hnew]
    exact scoreIn_clearScores t k

/-- **The scores in the table are the points of the flow.** -/
theorem scoreCompute_score {fuel : ℕ} {t : Table TrustedNode.PublicKey} {mUNL : Finset Bytes}
    (h : scoreCompute env fuel db = some (.ok (t, mUNL))) (k : Bytes) :
    scoreIn t k = ∑ q ∈ Finset.range (SCORE_ROUNDS + 1), flow (bestOf (sources db)) (refersTo env db) mUNL q k := by
  have hknown := (scoreCompute_spec h).1
  unfold scoreCompute at h
  split at h
  · cases h
  next st hseeds =>
    split at h
    · cases h
    next st' hwalk =>
      obtain ⟨R, hwalked⟩ := walk_spec (walkedTo_seeds hseeds) (Nat.zero_le _) hwalk
      obtain ⟨hkeys, hscore⟩ := scoreRounds_score SCORE_ROUNDS (follows_of_walked hwalked)
      rw [Nat.zero_add] at hscore
      have hpersist := Except.ok.inj (Option.some_inj.1 h)
      have ht := congrArg Prod.fst hpersist
      have hmUNL := congrArg Prod.snd hpersist
      rw [mUNL_persist] at hmUNL
      dsimp only at ht hmUNL
      have hnodup : ((scoreRounds SCORE_ROUNDS st'.vsnNodes).map ScoreNode.strValidator).Nodup :=
        hkeys ▸ hwalked.walked.index.nodup
      obtain ⟨hin, hout⟩ := @scoreIn_persist { st' with vsnNodes := scoreRounds SCORE_ROUNDS st'.vsnNodes } hnodup
        db.TrustedNodes
      rw [ht] at hin hout
      by_cases hk : k ∈ (scoreRounds SCORE_ROUNDS st'.vsnNodes).map ScoreNode.strValidator
      · obtain ⟨sn, hsn, rfl⟩ := List.mem_map.1 hk
        rw [hin sn hsn, hscore sn hsn, ← hmUNL, hkeys]
      · rw [hout k hk]
        refine (Finset.sum_eq_zero fun q _ => ?_).symm
        -- who has points is known, and so has a node
        by_contra hflow
        have hmem := (hknown k).2 (referred_of_flow hflow).known
        rw [← hmUNL, List.mem_toFinset] at hmem
        exact hk hmem

/-! ### What trust rests on -/

lemma exists_run {α β ε : Type} {x : Option (Except ε (α × β))} {p : α → Bool}
    (h : (x.bind Except.toOption).any (fun out => p out.1) = true) :
    ∃ a b, x = some (.ok (a, b)) ∧ p a = true := by
  rcases x with - | e | ⟨a, b⟩
  · cases h
  · cases h
  · exact ⟨a, b, rfl, h⟩

lemma scoreCompute_oneSeed : ∃ t mUNL, scoreCompute twoKeys 2 oneSeed = some (.ok (t, mUNL)) ∧
    referredText ∈ trustedLoad t := by
  have hrun : ((scoreCompute twoKeys 2 oneSeed).bind Except.toOption).any
      (fun out => decide (referredText ∈ trustedLoad out.1)) = true := by decide +kernel
  obtain ⟨t, mUNL, h, hmem⟩ := exists_run (p := fun t => decide (referredText ∈ trustedLoad t)) hrun
  exact ⟨t, mUNL, h, by simpa using hmem⟩

/-- The referrals of a validator, in order. -/
def referralsOf (db : Wallet) (k : Bytes) : List Bytes :=
  (selectReferrals db.ValidatorReferrals k).map fun r => r.Referral.bytes

/-- `db'` has the seeds of `db`, and the lists of those whom fewer than `SCORE_ROUNDS` referrals reach. -/
structure SameChains (env : Crypto) (db db' : Wallet) : Prop where
  domains : db'.SeedDomains = db.SeedDomains
  nodes : db'.SeedNodes = db.SeedNodes
  referrals : ∀ r < SCORE_ROUNDS, ∀ j, Referred env db r j → referralsOf db' j = referralsOf db j

lemma SameChains.sources (h : SameChains env db db') : sources db' = sources db := by
  rw [UniqueNodeList.sources, UniqueNodeList.sources, h.domains, h.nodes]

lemma refersTo_eq (k : Bytes) : refersTo env db k = (referralsOf db k).flatMap fun strReferral =>
    (if (setNodePublic env strReferral).1 then some strReferral
      else domainKey strReferral db.SeedDomains.rows.reverse).toList.filter (· ≠ k) := by
  rw [refersTo, referralsOf, List.flatMap_map]
  rfl

lemma SameChains.refersTo (h : SameChains env db db') {r : ℕ} (hr : r < SCORE_ROUNDS) {j : Bytes}
    (hj : Referred env db r j) : refersTo env db' j = refersTo env db j := by
  rw [refersTo_eq, refersTo_eq, h.domains, h.referrals r hr j hj]

/-- The chains are there in both. -/
lemma SameChains.referred (h : SameChains env db db') {r : ℕ} (hr : r ≤ SCORE_ROUNDS) {k : Bytes}
    (hk : Referred env db r k) : Referred env db' r k := by
  induction hk with
  | seed hmem hscore =>
    rw [← h.sources] at hmem
    exact .seed hmem hscore
  | referral hj hk ih =>
    rw [← h.refersTo (by omega) hj] at hk
    exact (ih (by omega)).referral hk

/-- The same seed, and a stranger that refers to it. -/
def oneStranger : Wallet :=
  { oneSeed with
    ValidatorReferrals := ⟨[⟨.blob referrerText, 0, .text referredText⟩, ⟨.blob (cString "n"), 0, .text referrerText⟩],
      by decide +kernel⟩ }

lemma referred_oneSeed {r : ℕ} {k : Bytes} (h : Referred twoKeys oneSeed r k) :
    k ∈ [referrerText, referredText] := by
  induction h with
  | @seed k iScore h _ =>
    have hkeys : ∀ e ∈ sources oneSeed, e.1 ∈ [referrerText, referredText] := by decide +kernel
    exact hkeys _ h
  | @referral r j k _ hk ih =>
    have hkeys : ∀ j ∈ [referrerText, referredText], ∀ k ∈ refersTo twoKeys oneSeed j,
        k ∈ [referrerText, referredText] := by decide +kernel
    exact hkeys j ih k hk

lemma sameChains_oneStranger : SameChains twoKeys oneSeed oneStranger where
  domains := rfl
  nodes := rfl
  referrals r _ j hj := by
    have hlists : ∀ j ∈ [referrerText, referredText], referralsOf oneStranger j = referralsOf oneSeed j := by
      decide +kernel
    exact hlists j (referred_oneSeed hj)

end Newcoin.UniqueNodeList
