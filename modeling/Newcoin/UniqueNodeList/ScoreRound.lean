import Newcoin.Bytes
import Newcoin.Lib.Shares

/-!
# A round of scoring

`scoreRound` distributes the points of every node to the nodes it refers to and settles what was
received.  Arithmetic is exact: `int` and `long` are integers, and `/` truncates towards zero.

* `distribute_frame`: handing out points touches nothing but `iRoundScore`.
* `totalRoundScore_distributeAll`: what the nodes have received is what the nodes have handed out.
* `ScoreInv`: what a round keeps, and `scoreRound_inv`, `rounds_inv`.
* `scoreRounds_eq`: the loop of `scoreCompute` may stop early, since a round that distributes nothing is the last
  that changes anything.
* `scoreRounds_node`: what the rounds of `scoreCompute` make of one node's score.
-/

namespace Newcoin.UniqueNodeList

open Newcoin.Lib

/-! ### The model -/

/-- A node of the scoring vector. -/
structure ScoreNode where
  iScore : ℤ
  iRoundScore : ℤ
  iRoundSeed : ℤ
  iSeen : ℤ
  /-- The public key. -/
  strValidator : Bytes
  /-- Positions in the scoring vector. -/
  viReferrals : List ℕ
  deriving DecidableEq, Repr

/-- `SCORE_ROUNDS`: don't bother propagating past this number of rounds. -/
def SCORE_ROUNDS : ℕ := 10

/-- `iBase` of a node with this seed and this many referrals. -/
def iBase (iRoundSeed : ℤ) (iEntries : ℕ) : ℤ :=
  (iRoundSeed * iEntries).tdiv (((iEntries + 1) * iEntries : ℤ).tdiv 2)

/-- `iPoints` of the `i`-th referral. -/
def iPoints (iRoundSeed : ℤ) (iEntries i : ℕ) : ℤ :=
  (iBase iRoundSeed iEntries * (iEntries - i)).tdiv iEntries

/-- The referrals a node gives points to, with the points, in the order of the loop. -/
def ScoreNode.handOut (sn : ScoreNode) : List (ℕ × ℤ) :=
  if sn.iRoundSeed ≠ 0 ∧ sn.viReferrals.length ≠ 0 then
    sn.viReferrals.mapIdx fun i iReferral =>
      (iReferral, iPoints sn.iRoundSeed sn.viReferrals.length i)
  else []

/-- `iRoundScore += iPoints`. -/
def ScoreNode.receive (p : ℤ) (sn : ScoreNode) : ScoreNode :=
  { sn with iRoundScore := sn.iRoundScore + p }

/-- The inner loop: the points of one node, added in place. -/
def distribute (vsnNodes : List ScoreNode) (iNode : ℕ) : List ScoreNode :=
  match vsnNodes[iNode]? with
  | some sn => sn.handOut.foldl (fun vsn e => vsn.modify e.1 (ScoreNode.receive e.2)) vsnNodes
  | none => vsnNodes

/-- The first loop of `scoreRound`: every node in turn, on the vector as the nodes before it left
it. -/
def distributeAll (vsnNodes : List ScoreNode) : List ScoreNode :=
  (List.range vsnNodes.length).foldl distribute vsnNodes

/-- The second loop: add `iRoundScore` to the score and make it the new seed. -/
def ScoreNode.settle (sn : ScoreNode) : ScoreNode :=
  { sn with
    iScore := sn.iScore + sn.iRoundScore
    iRoundSeed := sn.iRoundScore
    iRoundScore := 0 }

/-- For a round of scoring we distribute points from a node to nodes it refers to.  The Boolean
says whether scores were distributed. -/
def scoreRound (vsnNodes : List ScoreNode) : Bool × List ScoreNode :=
  let mid := distributeAll vsnNodes
  (mid.any fun sn => sn.iRoundScore ≠ 0, mid.map ScoreNode.settle)

/-- The vector after `r` calls of `scoreRound`. -/
def rounds (r : ℕ) (vsnNodes : List ScoreNode) : List ScoreNode :=
  (fun vsn => (scoreRound vsn).2)^[r] vsnNodes

/-- The loop of `scoreCompute`: `i` rounds at most, as long as scores are distributed. -/
def scoreRounds : ℕ → List ScoreNode → List ScoreNode
  | 0, vsnNodes => vsnNodes
  | i + 1, vsnNodes =>
    let r := scoreRound vsnNodes
    if r.1 then scoreRounds i r.2 else r.2

/-- The sum of the seeds. -/
def totalSeed (vsnNodes : List ScoreNode) : ℤ := (vsnNodes.map ScoreNode.iRoundSeed).sum

/-- The sum of the points received in the round so far. -/
def totalRoundScore (vsnNodes : List ScoreNode) : ℤ := (vsnNodes.map ScoreNode.iRoundScore).sum

/-- All the points a node gives away in a round. -/
def ScoreNode.handed (sn : ScoreNode) : ℤ := (sn.handOut.map Prod.snd).sum

example : (rounds 1 [⟨1500, 0, 1500, -1, [], [1, 2, 1]⟩, ⟨0, 0, 0, -1, [], []⟩,
    ⟨0, 0, 0, -1, [], [0]⟩]).map ScoreNode.iScore = [1500, 1000, 500] := by decide

/-! ### What one node hands out -/

lemma iPoints_eq_share (s : ℤ) (n i : ℕ) : iPoints s n i = share (fallingBase s n) n i := rfl

lemma handOut_nonneg {sn : ScoreNode} (hs : 0 ≤ sn.iRoundSeed) : ∀ e ∈ sn.handOut, 0 ≤ e.2 := by
  intro e he
  unfold ScoreNode.handOut at he
  split at he
  · obtain ⟨i, hi, rfl⟩ := List.mem_mapIdx.1 he
    rw [iPoints_eq_share]
    exact share_nonneg (fallingBase_nonneg hs _) hi.le
  · simp at he

lemma handOut_mem {sn : ScoreNode} {e : ℕ × ℤ} (he : e ∈ sn.handOut) : e.1 ∈ sn.viReferrals := by
  unfold ScoreNode.handOut at he
  split at he
  · obtain ⟨i, hi, rfl⟩ := List.mem_mapIdx.1 he
    exact List.getElem_mem hi
  · simp at he

/-- The points handed out are a sum over the positions of the referral list. -/
lemma sum_mapIdx_snd (f : ℕ → ℤ) (l : List ℕ) :
    ((l.mapIdx fun i k => (k, f i)).map Prod.snd).sum = ∑ i ∈ Finset.range l.length, f i := by
  induction l using List.reverseRecOn with
  | nil => rfl
  | append_singleton l k ih => simp [List.mapIdx_concat, Finset.sum_range_succ, ih]

/-- **A node hands out at most its seed.** -/
theorem handed_le {sn : ScoreNode} (hs : 0 ≤ sn.iRoundSeed) : sn.handed ≤ sn.iRoundSeed := by
  unfold ScoreNode.handed ScoreNode.handOut
  split
  · rw [sum_mapIdx_snd]
    simp only [iPoints_eq_share]
    exact sum_share_fallingBase_le hs _
  · simpa using hs

/-! ### The first loop -/

/-- What handing out points leaves alone. -/
def ScoreNode.frame (sn : ScoreNode) : ScoreNode := { sn with iRoundScore := 0 }

lemma ScoreNode.frame_congr {sn sn' : ScoreNode} (h : sn'.frame = sn.frame) :
    sn'.iScore = sn.iScore ∧ sn'.iRoundSeed = sn.iRoundSeed ∧
      sn'.viReferrals = sn.viReferrals := by
  simp only [ScoreNode.frame, ScoreNode.mk.injEq] at h
  exact ⟨h.1, h.2.2.1, h.2.2.2.2.2⟩

@[simp] lemma frame_receive (p : ℤ) (sn : ScoreNode) : (sn.receive p).frame = sn.frame := rfl

lemma foldl_receive_frame (es : List (ℕ × ℤ)) (vsn : List ScoreNode) :
    (es.foldl (fun vsn e => vsn.modify e.1 (ScoreNode.receive e.2)) vsn).map ScoreNode.frame
      = vsn.map ScoreNode.frame := by
  induction es generalizing vsn with
  | nil => rfl
  | cons e es ih =>
    rw [List.foldl_cons, ih]
    exact map_modify_of_view _ _ (frame_receive e.2) _ _

theorem distribute_frame (vsn : List ScoreNode) (iNode : ℕ) :
    (distribute vsn iNode).map ScoreNode.frame = vsn.map ScoreNode.frame := by
  unfold distribute
  split
  · exact foldl_receive_frame _ _
  · rfl

lemma foldl_distribute_frame (js : List ℕ) (vsn : List ScoreNode) :
    (js.foldl distribute vsn).map ScoreNode.frame = vsn.map ScoreNode.frame := by
  induction js generalizing vsn with
  | nil => rfl
  | cons j js ih => rw [List.foldl_cons, ih, distribute_frame]

/-- Two vectors with one frame have one length. -/
lemma length_of_frame {vsn vsn' : List ScoreNode}
    (h : vsn'.map ScoreNode.frame = vsn.map ScoreNode.frame) : vsn'.length = vsn.length := by
  simpa using congrArg List.length h

/-- Two vectors with one frame agree, entry by entry, up to `iRoundScore`. -/
lemma getElem?_of_frame {vsn vsn' : List ScoreNode} {sn' : ScoreNode} {j : ℕ}
    (h : vsn'.map ScoreNode.frame = vsn.map ScoreNode.frame) (hj : vsn'[j]? = some sn') :
    ∃ sn, vsn[j]? = some sn ∧ sn'.frame = sn.frame := by
  have := congrArg (fun l => l[j]?) h
  simp only [List.getElem?_map, hj, Option.map_some] at this
  obtain ⟨sn, h1, h2⟩ := Option.map_eq_some_iff.1 this.symm
  exact ⟨sn, h1, h2.symm⟩

lemma handOut_of_frame {sn sn' : ScoreNode} (h : sn'.frame = sn.frame) :
    sn'.handOut = sn.handOut := by
  obtain ⟨-, h1, h2⟩ := ScoreNode.frame_congr h
  simp only [ScoreNode.handOut, h1, h2]

lemma totalRoundScore_foldl_receive (es : List (ℕ × ℤ)) (vsn : List ScoreNode)
    (hes : ∀ e ∈ es, e.1 < vsn.length) :
    totalRoundScore (es.foldl (fun vsn e => vsn.modify e.1 (ScoreNode.receive e.2)) vsn)
      = totalRoundScore vsn + (es.map Prod.snd).sum := by
  induction es generalizing vsn with
  | nil => simp
  | cons e es ih =>
    rw [List.foldl_cons, ih _ (by simpa using fun e' he' => hes e' (List.mem_cons_of_mem _ he'))]
    unfold totalRoundScore
    rw [sum_map_modify ScoreNode.iRoundScore _ (fun _ => rfl) (hes e (List.mem_cons_self ..))]
    simp only [List.map_cons, List.sum_cons]
    ring

lemma foldl_receive_nonneg (es : List (ℕ × ℤ)) (vsn : List ScoreNode) (hes : ∀ e ∈ es, 0 ≤ e.2)
    (h0 : ∀ sn ∈ vsn, 0 ≤ sn.iRoundScore) :
    ∀ sn ∈ es.foldl (fun vsn e => vsn.modify e.1 (ScoreNode.receive e.2)) vsn,
      0 ≤ sn.iRoundScore := by
  induction es generalizing vsn with
  | nil => exact h0
  | cons e es ih =>
    refine ih _ (fun e' he' => hes e' (List.mem_cons_of_mem _ he')) ?_
    intro sn hsn
    obtain ⟨k, hk⟩ := List.mem_iff_getElem?.1 hsn
    rw [List.getElem?_modify] at hk
    obtain ⟨sn₀, h1, rfl⟩ := Option.map_eq_some_iff.1 hk
    have h2 := h0 sn₀ (List.mem_iff_getElem?.2 ⟨k, h1⟩)
    have h3 := hes e (List.mem_cons_self ..)
    by_cases hke : e.1 = k
    · simp only [hke, if_true, ScoreNode.receive]; omega
    · simpa [hke] using h2

/-! ### What a round keeps -/

/-- The vector between two rounds: nothing is negative, no points are on their way, referrals are
positions of the vector. -/
structure ScoreInv (vsnNodes : List ScoreNode) : Prop where
  score : ∀ sn ∈ vsnNodes, 0 ≤ sn.iScore
  seed : ∀ sn ∈ vsnNodes, 0 ≤ sn.iRoundSeed
  settled : ∀ sn ∈ vsnNodes, sn.iRoundScore = 0
  referral : ∀ sn ∈ vsnNodes, ∀ k ∈ sn.viReferrals, k < vsnNodes.length

variable {vsn : List ScoreNode}

/-- A node of a vector that has only received points hands out what it handed out before. -/
lemma distribute_of_frame {cur : List ScoreNode} (hf : cur.map ScoreNode.frame = vsn.map ScoreNode.frame) {j : ℕ}
    (hj : j < vsn.length) : ∃ sn, vsn[j]? = some sn ∧
      distribute cur j = sn.handOut.foldl (fun vsn e => vsn.modify e.1 (ScoreNode.receive e.2)) cur := by
  have hlen := length_of_frame hf
  obtain ⟨snc, hsnc⟩ : ∃ snc, cur[j]? = some snc := ⟨_, List.getElem?_eq_getElem (by omega)⟩
  obtain ⟨sn, hsn, hfr⟩ := getElem?_of_frame hf hsnc
  refine ⟨sn, hsn, ?_⟩
  unfold distribute
  rw [hsnc]
  simp only [handOut_of_frame hfr]

/-- The state of the first loop after the nodes of `js`: only `iRoundScore` has moved, it is
nowhere negative, and its total is what these nodes have handed out. -/
lemma foldl_distribute_spec (hI : ScoreInv vsn) (js : List ℕ) (hjs : ∀ j ∈ js, j < vsn.length)
    (cur : List ScoreNode) (hf : cur.map ScoreNode.frame = vsn.map ScoreNode.frame)
    (h0 : ∀ sn ∈ cur, 0 ≤ sn.iRoundScore) :
    (∀ sn ∈ js.foldl distribute cur, 0 ≤ sn.iRoundScore) ∧
    totalRoundScore (js.foldl distribute cur)
      = totalRoundScore cur + (js.map fun j => (vsn[j]?.map ScoreNode.handed).getD 0).sum := by
  induction js generalizing cur with
  | nil => exact ⟨h0, by simp⟩
  | cons j js ih =>
    obtain ⟨sn, hsn, hd⟩ := distribute_of_frame hf (hjs j (List.mem_cons_self ..))
    have hmem : sn ∈ vsn := List.mem_iff_getElem?.2 ⟨j, hsn⟩
    have hstep := ih (fun j' hj' => hjs j' (List.mem_cons_of_mem _ hj')) (distribute cur j)
      ((distribute_frame cur j).trans hf)
      (by rw [hd]; exact foldl_receive_nonneg _ _ (handOut_nonneg (hI.seed sn hmem)) h0)
    refine ⟨hstep.1, ?_⟩
    have htot : totalRoundScore (distribute cur j) = totalRoundScore cur + sn.handed := by
      rw [hd]
      refine totalRoundScore_foldl_receive _ _ ?_
      intro e he
      rw [length_of_frame hf]
      exact hI.referral sn hmem _ (handOut_mem he)
    rw [List.foldl_cons, hstep.2, htot, List.map_cons, List.sum_cons, hsn]
    simp only [Option.map_some, Option.getD_some]
    ring

lemma sum_range_getElem? (f : ScoreNode → ℤ) (l : List ScoreNode) :
    ((List.range l.length).map fun j => (l[j]?.map f).getD 0).sum = (l.map f).sum := by
  congr 1
  refine List.ext_getElem (by simp) ?_
  intro j h1 h2
  simp only [List.length_map, List.length_range] at h1
  simp [List.getElem?_eq_getElem h1]

lemma totalRoundScore_settled (h : ∀ sn ∈ vsn, sn.iRoundScore = 0) : totalRoundScore vsn = 0 := by
  apply List.sum_eq_zero
  intro x hx
  obtain ⟨sn, hsn, rfl⟩ := List.mem_map.1 hx
  exact h sn hsn

theorem distributeAll_nonneg (hI : ScoreInv vsn) :
    ∀ sn ∈ distributeAll vsn, 0 ≤ sn.iRoundScore :=
  (foldl_distribute_spec hI _ (fun _ hj => List.mem_range.1 hj) vsn rfl
    (fun sn hsn => (hI.settled sn hsn).ge)).1

/-- **What the nodes have received is what the nodes have handed out.** -/
theorem totalRoundScore_distributeAll (hI : ScoreInv vsn) :
    totalRoundScore (distributeAll vsn) = (vsn.map ScoreNode.handed).sum := by
  have h := (foldl_distribute_spec hI _ (fun _ hj => List.mem_range.1 hj) vsn rfl
    (fun sn hsn => (hI.settled sn hsn).ge)).2
  rw [totalRoundScore_settled hI.settled, zero_add, sum_range_getElem?] at h
  exact h

theorem distributeAll_frame (vsn : List ScoreNode) :
    (distributeAll vsn).map ScoreNode.frame = vsn.map ScoreNode.frame :=
  foldl_distribute_frame _ _

lemma distributeAll_total_le (hI : ScoreInv vsn) :
    totalRoundScore (distributeAll vsn) ≤ totalSeed vsn := by
  rw [totalRoundScore_distributeAll hI]
  exact List.sum_le_sum fun sn hsn => handed_le (hI.seed sn hsn)

/-- The seeds after a round are the points received in it. -/
lemma totalSeed_scoreRound (vsn : List ScoreNode) :
    totalSeed (scoreRound vsn).2 = totalRoundScore (distributeAll vsn) := by
  simp [totalSeed, totalRoundScore, scoreRound, ScoreNode.settle, Function.comp_def]

/-- **The seeds never grow in total.** -/
theorem totalSeed_scoreRound_le (hI : ScoreInv vsn) :
    totalSeed (scoreRound vsn).2 ≤ totalSeed vsn := by
  rw [totalSeed_scoreRound]
  exact distributeAll_total_le hI

/-- One entry of a vector of non-negative points is at most their total. -/
lemma iRoundScore_le_total {mid : List ScoreNode} (h0 : ∀ sn ∈ mid, 0 ≤ sn.iRoundScore)
    {sn : ScoreNode} (hsn : sn ∈ mid) : sn.iRoundScore ≤ totalRoundScore mid :=
  List.single_le_sum (by
    intro x hx
    obtain ⟨sn', hsn', rfl⟩ := List.mem_map.1 hx
    exact h0 sn' hsn') _ (List.mem_map_of_mem hsn)

/-- One node in one round: its score does not fall and grows by at most the seeds before it. -/
theorem scoreRound_node (hI : ScoreInv vsn) {j : ℕ} {sn : ScoreNode} (hj : vsn[j]? = some sn) :
    ∃ sn', (scoreRound vsn).2[j]? = some sn' ∧ sn.iScore ≤ sn'.iScore ∧
      sn'.iScore ≤ sn.iScore + totalSeed vsn ∧ sn'.viReferrals = sn.viReferrals := by
  obtain ⟨mid, hmid, hfr⟩ := getElem?_of_frame (distributeAll_frame vsn).symm hj
  have hmem : mid ∈ distributeAll vsn := List.mem_iff_getElem?.2 ⟨j, hmid⟩
  obtain ⟨h1, -, h5⟩ := ScoreNode.frame_congr hfr
  have h2 := distributeAll_nonneg hI mid hmem
  have h3 := iRoundScore_le_total (distributeAll_nonneg hI) hmem
  have h4 := distributeAll_total_le hI
  refine ⟨mid.settle, by simp [scoreRound, hmid], ?_, ?_, ?_⟩
  · simp only [ScoreNode.settle]; omega
  · simp only [ScoreNode.settle]; omega
  · exact h5.symm

theorem scoreRound_length (vsn : List ScoreNode) : (scoreRound vsn).2.length = vsn.length := by
  have := length_of_frame (distributeAll_frame vsn)
  simpa [scoreRound] using this

/-- **A round keeps the invariant.** -/
theorem scoreRound_inv (hI : ScoreInv vsn) : ScoreInv (scoreRound vsn).2 := by
  have hback : ∀ sn' ∈ (scoreRound vsn).2, ∃ mid ∈ distributeAll vsn, ∃ sn ∈ vsn,
      sn' = mid.settle ∧ sn.iScore = mid.iScore ∧ sn.viReferrals = mid.viReferrals := by
    intro sn' hsn'
    obtain ⟨mid, hmid, rfl⟩ := List.mem_map.1 hsn'
    obtain ⟨j, hj⟩ := List.mem_iff_getElem?.1 hmid
    obtain ⟨sn, hsn, hfr⟩ := getElem?_of_frame (distributeAll_frame vsn) hj
    obtain ⟨h1, -, h2⟩ := ScoreNode.frame_congr hfr
    exact ⟨mid, hmid, sn, List.mem_iff_getElem?.2 ⟨j, hsn⟩, rfl, h1.symm, h2.symm⟩
  constructor
  · intro sn' hsn'
    obtain ⟨mid, hmid, sn, hsn, rfl, h1, -⟩ := hback sn' hsn'
    have := hI.score sn hsn
    have := distributeAll_nonneg hI mid hmid
    simp only [ScoreNode.settle]; omega
  · intro sn' hsn'
    obtain ⟨mid, hmid, -, -, rfl, -⟩ := hback sn' hsn'
    exact distributeAll_nonneg hI mid hmid
  · intro sn' hsn'
    obtain ⟨mid, -, -, -, rfl, -⟩ := hback sn' hsn'
    rfl
  · intro sn' hsn' k hk
    obtain ⟨mid, -, sn, hsn, rfl, -, h2⟩ := hback sn' hsn'
    rw [scoreRound_length]
    exact hI.referral sn hsn k (by rw [h2]; exact hk)

lemma rounds_succ (r : ℕ) (vsn : List ScoreNode) :
    rounds (r + 1) vsn = (scoreRound (rounds r vsn)).2 :=
  Function.iterate_succ_apply' _ _ _

/-- **Any number of rounds keeps the invariant, and the seeds never exceed the first ones.** -/
theorem rounds_inv (hI : ScoreInv vsn) (r : ℕ) :
    ScoreInv (rounds r vsn) ∧ totalSeed (rounds r vsn) ≤ totalSeed vsn := by
  induction r with
  | zero => exact ⟨hI, le_refl _⟩
  | succ r ih =>
    rw [rounds_succ]
    exact ⟨scoreRound_inv ih.1, (totalSeed_scoreRound_le ih.1).trans ih.2⟩

theorem rounds_node (hI : ScoreInv vsn) {j : ℕ} {sn : ScoreNode} (hj : vsn[j]? = some sn) (r : ℕ) :
    ∃ sn', (rounds r vsn)[j]? = some sn' ∧ 0 ≤ sn'.iScore ∧
      sn'.iScore ≤ sn.iScore + r * totalSeed vsn := by
  induction r with
  | zero => exact ⟨sn, hj, hI.score sn (List.mem_iff_getElem?.2 ⟨j, hj⟩), by simp⟩
  | succ r ih =>
    obtain ⟨sn₁, h1, h2, h3⟩ := ih
    obtain ⟨hIr, hS⟩ := rounds_inv hI r
    obtain ⟨sn', h4, h5, h6, -⟩ := scoreRound_node hIr h1
    refine ⟨sn', by rw [rounds_succ]; exact h4, by omega, ?_⟩
    push_cast
    linarith

/-! ### Stopping early -/

/-- Nobody has points to give. -/
def Quiet (vsn : List ScoreNode) : Prop := ∀ sn ∈ vsn, sn.iRoundSeed = 0 ∧ sn.iRoundScore = 0

lemma handOut_of_no_seed {sn : ScoreNode} (h : sn.iRoundSeed = 0) : sn.handOut = [] :=
  if_neg fun hseed => hseed.1 h

lemma distributeAll_of_quiet (h : Quiet vsn) : distributeAll vsn = vsn := by
  have hstep : ∀ j, distribute vsn j = vsn := by
    intro j
    unfold distribute
    split
    next sn hsn =>
      rw [handOut_of_no_seed (h sn (List.mem_of_getElem? hsn)).1]
      rfl
    · rfl
  unfold distributeAll
  induction List.range vsn.length with
  | nil => rfl
  | cons j js ih => rw [List.foldl_cons, hstep, ih]

/-- **A quiet vector stays as it is.** -/
theorem scoreRound_of_quiet (h : Quiet vsn) : (scoreRound vsn).2 = vsn := by
  rw [scoreRound, distributeAll_of_quiet h]
  refine (List.map_congr_left fun sn hsn => ?_).trans (List.map_id _)
  obtain ⟨hseed, hround⟩ := h sn hsn
  cases sn
  simp_all [ScoreNode.settle]

/-- After a round that distributes nothing: the seeds are what was received. -/
theorem quiet_of_not_dist (h : (scoreRound vsn).1 = false) : Quiet (scoreRound vsn).2 := by
  intro sn' hsn'
  obtain ⟨sn, hsn, rfl⟩ := List.mem_map.1 hsn'
  have hzero := List.any_eq_false.1 h sn hsn
  exact ⟨by simpa [ScoreNode.settle] using hzero, rfl⟩

/-- The loop makes all its rounds, or stops where the other rounds change nothing. -/
lemma scoreRounds_eq (i : ℕ) (vsn : List ScoreNode) : scoreRounds i vsn = rounds i vsn := by
  induction i generalizing vsn with
  | zero => rfl
  | succ i ih =>
    have hrounds : rounds (i + 1) vsn = rounds i (scoreRound vsn).2 := Function.iterate_succ_apply _ _ _
    rw [scoreRounds, hrounds]
    split
    · exact ih _
    next hdist =>
      have hquiet := quiet_of_not_dist (Bool.eq_false_iff.2 hdist)
      exact (Function.iterate_fixed (scoreRound_of_quiet hquiet) i).symm

/-- **Stopping early changes no score**: every node is as after `SCORE_ROUNDS` rounds. -/
theorem scoreRounds_unconditional (vsnNodes : List ScoreNode) :
    scoreRounds SCORE_ROUNDS vsnNodes = rounds SCORE_ROUNDS vsnNodes := scoreRounds_eq SCORE_ROUNDS vsnNodes

/-- **What `scoreCompute` distributes in all**: no score falls below zero, or rises by more than
`SCORE_ROUNDS` times the seeds. -/
theorem scoreRounds_node (hI : ScoreInv vsn) {j : ℕ} {sn : ScoreNode} (hj : vsn[j]? = some sn) :
    ∃ sn', (scoreRounds SCORE_ROUNDS vsn)[j]? = some sn' ∧ 0 ≤ sn'.iScore ∧
      sn'.iScore ≤ sn.iScore + SCORE_ROUNDS * totalSeed vsn := by
  rw [scoreRounds_eq]
  exact rounds_node hI hj SCORE_ROUNDS

/-- **Trust points are never created by a round of scoring.** -/
theorem scoreRound_creates_no_points (vsn : List ScoreNode)
    (hnonneg : ∀ sn ∈ vsn, 0 ≤ sn.iScore ∧ 0 ≤ sn.iRoundSeed ∧ sn.iRoundScore = 0)
    (hreferral : ∀ sn ∈ vsn, ∀ k ∈ sn.viReferrals, k < vsn.length) :
    (∀ sn ∈ vsn, sn.handed ≤ sn.iRoundSeed) ∧
    totalSeed (scoreRound vsn).2 ≤ totalSeed vsn ∧
    ∀ (r j : ℕ) (sn : ScoreNode), vsn[j]? = some sn →
      ∃ sn', (rounds r vsn)[j]? = some sn' ∧ 0 ≤ sn'.iScore ∧
        sn'.iScore ≤ sn.iScore + r * totalSeed vsn := by
  have hI : ScoreInv vsn := ⟨fun sn h => (hnonneg sn h).1, fun sn h => (hnonneg sn h).2.1,
    fun sn h => (hnonneg sn h).2.2, hreferral⟩
  exact ⟨fun sn h => handed_le (hnonneg sn h).2.1, totalSeed_scoreRound_le hI,
    fun r _ _ hj => rounds_node hI hj r⟩

/-- Two nodes that refer to each other, one of them twice. -/
theorem scoreRound_creates_no_points_pair :
    let vsn : List ScoreNode := [⟨1500, 0, 1500, -1, [], [1, 1]⟩, ⟨0, 0, 0, -1, [], [0]⟩]
    (∀ sn ∈ vsn, sn.handed ≤ sn.iRoundSeed) ∧
    totalSeed (scoreRound vsn).2 ≤ totalSeed vsn ∧
    ∀ (r j : ℕ) (sn : ScoreNode), vsn[j]? = some sn →
      ∃ sn', (rounds r vsn)[j]? = some sn' ∧ 0 ≤ sn'.iScore ∧
        sn'.iScore ≤ sn.iScore + r * totalSeed vsn :=
  scoreRound_creates_no_points _ (by decide) (by decide)

end Newcoin.UniqueNodeList
