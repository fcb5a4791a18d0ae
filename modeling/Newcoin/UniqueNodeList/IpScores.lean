import Newcoin.Lib.Tally
import Newcoin.UniqueNodeList.IpReferrals
import Newcoin.UniqueNodeList.SeedRecords
import Newcoin.UniqueNodeList.TrustGraph

/-!
# Scores of addresses

The last part of `scoreCompute`: each validator divides its score among the addresses it refers to, and the
sums go to `PeerIps`.  Arithmetic is exact, but a division by zero, like a position outside the vector, has no
result.

* `scoreIps_eq`: the loops are one tally of what all validators give.
* `scores_of_ips`: what the score of an address is.
-/

namespace Newcoin.UniqueNodeList

open Lib Lib.Sql Lib.Tally NewcoinAddress
open SeedRecords (getInt)

/-! ### The model -/

/-- A row of `PeerIps`. -/
structure PeerIpRow where
  IpPort : Value
  Score : ℤ
  Source : Value
  /-- When to next scan; `none` for `NULL`: not scanning. -/
  ScanNext : Option ℤ
  /-- Delay between scans. -/
  ScanInterval : ℤ
  deriving DecidableEq, Repr

abbrev PeerIps := Table PeerIpRow.IpPort

/-- An order in which a query gives its groups, or a loop visits the entries of a map. -/
structure Order (α : Type) where
  arrange : List α → List α
  perm : ∀ l, (arrange l).Perm l

/-- The orders of a run. -/
structure Orders where
  groups : Order (Value × ℕ)
  umValidators : Order (Σ _ : Bytes, ℕ)
  umScore : Order (Σ _ : IpPort, ℤ)

/-- `/`; `none` for a division by zero. -/
def divide (a b : ℤ) : Option ℤ := if b = 0 then none else some (a.tdiv b)

/-- `iBase` of a validator with this score and this many entries. -/
def ipBase (iSeed : ℤ) (iEntries : ℕ) : Option ℤ :=
  let iTotal := ((iEntries + 1) * iEntries : ℤ).tdiv 2
  divide (iSeed * iEntries) iTotal

/-- `iPoints` of an entry. -/
def ipPoints (iBase : ℤ) (iEntries iEntry : ℕ) : Option ℤ := divide (iBase * (iEntries - iEntry)) iEntries

/-- `SELECT Validator,COUNT(*) AS Count FROM IpReferrals GROUP BY Validator`. -/
def selectCounts (db : IpReferrals) : List (Value × ℕ) :=
  (db.rows.map IpReferral.Validator).dedup.map fun v => (v, db.rows.countP fun r => r.Validator = v)

/-- `SELECT IP,Port FROM IpReferrals WHERE Validator=… ORDER BY Entry`: the rows. -/
def selectIps (db : IpReferrals) (strValidator : Bytes) : List IpReferral :=
  orderBy IpReferral.Entry (db.select fun r => literal (Database.escape strValidator) = some r.Validator)

/-- `ep`. -/
def endpoint (r : IpReferral) : IpPort := (r.IP.bytes, if r.Port = .null then -1 else getInt r.Port)

variable (ord : Orders) (st : ScoreState) (db : IpReferrals)

/-- The number of entries of each validator. -/
def umValidators : AList fun _ : Bytes => ℕ :=
  if st.vsnNodes = [] then ∅
  else (ord.groups.arrange (selectCounts db)).foldl (fun um g => um.insert g.1.bytes g.2) ∅

/-- One row of a validator: `iEntry` and `umScore` after it. -/
def scoreRow (iBase : ℤ) (iEntries : ℕ) (s : ℕ × AList fun _ : IpPort => ℤ) (r : IpReferral) :
    Option (ℕ × AList fun _ : IpPort => ℤ) := do
  let iPoints ← ipPoints iBase iEntries s.1
  let ep := endpoint r
  return (s.1 + 1, s.2.insert ep ((s.2.lookup ep).elim iPoints (· + iPoints)))

/-- One validator. -/
def scoreValidator (umScore : AList fun _ : IpPort => ℤ) (vc : Σ _ : Bytes, ℕ) :
    Option (AList fun _ : IpPort => ℤ) :=
  match st.umPulicIdx vc.1 with
  | none => some umScore
  | some iNode => do
    let sn ← st.vsnNodes[iNode]?
    let iBase ← ipBase sn.iScore vc.2
    let s ← (selectIps db vc.1).foldlM (scoreRow iBase vc.2) (0, umScore)
    return s.2

/-- For each validator, get each referral and add its score to ip's score. -/
def scoreIps : Option (AList fun _ : IpPort => ℤ) :=
  (ord.umValidators.arrange (umValidators ord st db).entries).foldlM (scoreValidator st db) ∅

/-- `UPDATE PeerIps SET Score = 0 WHERE Score != 0`. -/
def clearIpScores (peers : PeerIps) : PeerIps :=
  peers.update (fun r => if r.Score ≠ 0 then { r with Score := 0 } else r) fun r => by split <;> rfl

/-- The row of a statement that names three columns; the other two get their defaults. -/
def peerIpRow (ipScore : Σ _ : IpPort, ℤ) : Option PeerIpRow :=
  (literal (Database.escape (ConnectionPool.ipPortText ipScore.1))).map fun IpPort =>
    { IpPort, Score := ipScore.2, Source := .text (ValidatorSource.formatC .vsValidator), ScanNext := some 0
      ScanInterval := 0 }

/-- `REPLACE INTO PeerIps (IpPort,Score,Source) VALUES …`, left out when there is nothing to write. -/
def replaceScores (umScore : AList fun _ : IpPort => ℤ) (peers : PeerIps) : PeerIps :=
  if umScore.entries = [] then peers
  else ((ord.umScore.arrange umScore.entries).mapM peerIpRow).elim peers fun rows => peers.replaceAll rows

/-- `scoreCompute` from where it scores IPs. -/
def scorePeers (peers : PeerIps) : Option PeerIps :=
  (scoreIps ord st db).map fun umScore => replaceScores ord umScore (clearIpScores peers)

/-- `scoreCompute` and `PeerIps`; `none` if `fuel` is not enough, or a division has no result. -/
def scoreComputePeers (env : Crypto) (fuel : ℕ) (wallet : Wallet) (peers : PeerIps) :
    Option (Except Fault PeerIps) :=
  match seeds wallet with
  | .error e => some (.error e)
  | .ok st =>
    (walk env wallet.ValidatorReferrals fuel 0 st).bind fun st =>
      (scorePeers ord { st with vsnNodes := scoreRounds SCORE_ROUNDS st.vsnNodes } db peers).map .ok

/-! ### What a validator gives -/

variable {ord st db}

/-- Every index in the map is a position of the vector. -/
def InRange (st : ScoreState) : Prop := ∀ k i, st.umPulicIdx k = some i → i < st.vsnNodes.length

/-- The score of a validator that is in the map. -/
def iScoreOf (st : ScoreState) (strValidator : Bytes) : Option ℤ :=
  (st.umPulicIdx strValidator).bind fun iNode => st.vsnNodes[iNode]?.map ScoreNode.iScore

/-- The points of its entries, of which it has `vc.2`. -/
def gives (st : ScoreState) (db : IpReferrals) (vc : Σ _ : Bytes, ℕ) : List (IpPort × ℤ) :=
  (iScoreOf st vc.1).elim [] fun iSeed =>
    (selectIps db vc.1).mapIdx fun i r => (endpoint r, iPoints iSeed vc.2 i)

lemma ipBase_eq {n : ℕ} (hn : 0 < n) (iSeed : ℤ) : ipBase iSeed n = some (iBase iSeed n) := by
  have htotal : ((n + 1) * n : ℤ).tdiv 2 ≠ 0 := by
    have hmul : (2 : ℤ) ≤ (n + 1) * n := by exact_mod_cast Nat.mul_le_mul (Nat.succ_le_succ hn) hn
    rw [Int.tdiv_eq_ediv_of_nonneg (by omega)]
    omega
  exact if_neg htotal

lemma ipPoints_eq {n : ℕ} (hn : 0 < n) (b : ℤ) (i : ℕ) : ipPoints b n i = some ((b * (n - i)).tdiv n) :=
  if_neg (by omega)

/-- **The rows of a validator**, from the `k`-th on. -/
lemma foldlM_scoreRow {n : ℕ} (hn : 0 < n) (b : ℤ) (rows : List IpReferral) (k : ℕ)
    (umScore : AList fun _ : IpPort => ℤ) :
    rows.foldlM (scoreRow b n) (k, umScore) = some (k + rows.length,
      tally (rows.mapIdx fun i r => (endpoint r, (b * (n - (k + i : ℕ))).tdiv n)) umScore) := by
  induction rows generalizing k umScore with
  | nil => rfl
  | cons r rows ih =>
    have hrow : scoreRow b n (k, umScore) r =
        some (k + 1, add umScore (endpoint r, (b * (n - k)).tdiv n)) := by
      rw [scoreRow, ipPoints_eq hn]
      rfl
    rw [List.foldlM_cons, hrow]
    refine (ih (k + 1) _).trans ?_
    rw [List.length_cons, List.mapIdx_cons, tally, tally, List.foldl_cons]
    simp only [Nat.add_zero, Nat.add_assoc, Nat.add_comm 1]

/-- **A validator** adds what it gives. -/
lemma scoreValidator_eq (hin : InRange st) {vc : Σ _ : Bytes, ℕ} (hn : 0 < vc.2)
    (umScore : AList fun _ : IpPort => ℤ) :
    scoreValidator st db umScore vc = some (tally (gives st db vc) umScore) := by
  unfold scoreValidator gives iScoreOf
  cases hidx : st.umPulicIdx vc.1 with
  | none => rfl
  | some iNode =>
    have hlt : iNode < st.vsnNodes.length := hin vc.1 iNode hidx
    obtain ⟨sn, hsn⟩ : ∃ sn, st.vsnNodes[iNode]? = some sn := ⟨_, List.getElem?_eq_getElem hlt⟩
    have hfold := foldlM_scoreRow hn (iBase sn.iScore vc.2) (selectIps db vc.1) 0 umScore
    simp only [Nat.zero_add] at hfold
    dsimp only
    rw [Option.bind_some, hsn, Option.map_some, Option.elim_some]
    simp only [bind, Option.bind_some, ipBase_eq hn, hfold]
    rfl

/-- **The loops** are one tally. -/
lemma foldlM_scoreValidator (hin : InRange st) (vcs : List (Σ _ : Bytes, ℕ)) (hn : ∀ vc ∈ vcs, 0 < vc.2)
    (umScore : AList fun _ : IpPort => ℤ) :
    vcs.foldlM (scoreValidator st db) umScore = some (tally (vcs.flatMap (gives st db)) umScore) := by
  induction vcs generalizing umScore with
  | nil => rfl
  | cons vc vcs ih =>
    rw [List.foldlM_cons, scoreValidator_eq hin (hn vc List.mem_cons_self), List.flatMap_cons, tally_append]
    exact ih (fun vc' h => hn vc' (List.mem_cons_of_mem _ h)) _

/-! ### The counts -/

/-- What is kept of a list of counts. -/
lemma lookup_counts (gs : List (Value × ℕ)) (um : AList fun _ : Bytes => ℕ) {v : Bytes} {n : ℕ}
    (h : (gs.foldl (fun um g => um.insert g.1.bytes g.2) um).lookup v = some n) :
    (∃ g ∈ gs, g.1.bytes = v ∧ g.2 = n) ∨ um.lookup v = some n := by
  induction gs generalizing um with
  | nil => exact .inr h
  | cons g gs ih =>
    rw [List.foldl_cons] at h
    rcases ih _ h with ⟨g', hg', hv⟩ | hum
    · exact .inl ⟨g', List.mem_cons_of_mem _ hg', hv⟩
    · by_cases hv : v = g.1.bytes
      · subst hv
        rw [AList.lookup_insert] at hum
        exact .inl ⟨g, List.mem_cons_self, rfl, Option.some.inj hum⟩
      · rw [AList.lookup_insert_ne hv] at hum
        exact .inr hum

lemma mem_counts (gs : List (Value × ℕ)) (um : AList fun _ : Bytes => ℕ) {v : Bytes} :
    v ∈ gs.foldl (fun um g => um.insert g.1.bytes g.2) um ↔ (∃ g ∈ gs, g.1.bytes = v) ∨ v ∈ um := by
  induction gs generalizing um with
  | nil => simp
  | cons g gs ih =>
    rw [List.foldl_cons, ih, AList.mem_insert]
    simp only [List.mem_cons, exists_eq_or_imp]
    rw [@eq_comm _ v, or_left_comm, or_assoc]

lemma mem_selectCounts {g : Value × ℕ} :
    g ∈ selectCounts db ↔ (∃ r ∈ db.rows, r.Validator = g.1) ∧ g.2 = db.rows.countP fun r => r.Validator = g.1 := by
  unfold selectCounts
  simp only [List.mem_map, List.mem_dedup]
  constructor
  · rintro ⟨v, hv, rfl⟩
    exact ⟨hv, rfl⟩
  · rintro ⟨hv, hn⟩
    exact ⟨g.1, hv, Prod.ext rfl hn.symm⟩

/-- **The validators** are those of the rows. -/
lemma mem_umValidators {v : Bytes} :
    v ∈ umValidators ord st db ↔ st.vsnNodes ≠ [] ∧ ∃ r ∈ db.rows, r.Validator.bytes = v := by
  unfold umValidators
  split_ifs with hnil
  · simp [hnil]
  · rw [mem_counts]
    simp only [(ord.groups.perm _).mem_iff, mem_selectCounts]
    constructor
    · rintro (⟨g, ⟨⟨r, hr, hg⟩, -⟩, hv⟩ | hmem)
      · exact ⟨hnil, r, hr, hg ▸ hv⟩
      · exact absurd hmem (AList.notMem_empty v)
    · rintro ⟨-, r, hr, hv⟩
      exact .inl ⟨(r.Validator, db.rows.countP fun r' => r'.Validator = r.Validator), ⟨⟨r, hr, rfl⟩, rfl⟩, hv⟩

/-- The count of a validator is that of one of its groups. -/
lemma lookup_umValidators {v : Bytes} {n : ℕ} (h : (umValidators ord st db).lookup v = some n) :
    ∃ r ∈ db.rows, r.Validator.bytes = v ∧ n = db.rows.countP fun r' => r'.Validator = r.Validator := by
  unfold umValidators at h
  split_ifs at h
  · simp at h
  · rcases lookup_counts _ _ h with ⟨g, hg, hv, hn⟩ | hempty
    · rw [(ord.groups.perm _).mem_iff, mem_selectCounts] at hg
      obtain ⟨⟨r, hr, hval⟩, hcount⟩ := hg
      exact ⟨r, hr, hval ▸ hv, by rw [← hn, hcount, hval]⟩
    · simp at hempty

/-- No count is zero. -/
lemma umValidators_pos {vc : Σ _ : Bytes, ℕ} (h : vc ∈ (umValidators ord st db).entries) : 0 < vc.2 := by
  obtain ⟨r, hr, -, hn⟩ := lookup_umValidators (AList.mem_lookup_iff.2 h)
  rw [hn, List.countP_pos_iff]
  exact ⟨r, hr, by simp⟩

/-- **What the loops compute**, in any order. -/
theorem scoreIps_eq (hin : InRange st) :
    scoreIps ord st db =
      some (tally ((ord.umValidators.arrange (umValidators ord st db).entries).flatMap (gives st db)) ∅) :=
  foldlM_scoreValidator hin _ (fun _ h => umValidators_pos ((ord.umValidators.perm _).mem_iff.1 h)) ∅

/-! ### The scores -/

/-- The names that rows are counted under. -/
def validators (db : IpReferrals) : Finset Bytes := (db.rows.map fun r => r.Validator.bytes).toFinset

/-- Both queries see the same rows of a validator: those that are counted under its name are those that are
found under it. -/
def SameRows (db : IpReferrals) : Prop :=
  ∀ strValidator ∈ validators db, ∀ r ∈ db.rows,
    r.Validator.bytes = strValidator ↔ literal (Database.escape strValidator) = some r.Validator

lemma mem_validators {v : Bytes} : v ∈ validators db ↔ ∃ r ∈ db.rows, r.Validator.bytes = v := by
  rw [validators, List.mem_toFinset, List.mem_map]

/-- The rows that `processIps` writes are seen by both. -/
lemma sameRows_of_blobs (h : ∀ r ∈ db.rows, ∃ s : Bytes, s.length < 2 ^ 31 ∧ r.Validator = .blob s) :
    SameRows db := by
  intro v hv r hr
  obtain ⟨r', hr', rfl⟩ := mem_validators.1 hv
  obtain ⟨s, -, hs⟩ := h r hr
  obtain ⟨s', hlen, hs'⟩ := h r' hr'
  rw [hs, hs', Value.bytes, Value.bytes, literal_escape_iff.2 hlen]
  simp only [Option.some.injEq, Value.blob.injEq, eq_comm]

/-- The rows of one name have one value. -/
lemma count_eq_length (hsame : SameRows db) {r : IpReferral} (hr : r ∈ db.rows) :
    (db.rows.countP fun r' => r'.Validator = r.Validator) = (selectIps db r.Validator.bytes).length := by
  have hv : r.Validator.bytes ∈ validators db := mem_validators.2 ⟨r, hr, rfl⟩
  have hself := (hsame _ hv r hr).1 rfl
  rw [selectIps, (perm_orderBy _ _).length_eq, Table.select, List.countP_eq_length_filter]
  refine congrArg List.length (List.filter_congr fun r' _ => ?_)
  rw [hself]
  simp only [Option.some.injEq, eq_comm]

/-- What is added for one address. -/
lemma total_gives {v : Bytes} {n : ℕ} (hn : n = (selectIps db v).length) (ep : IpPort) :
    total (gives st db ⟨v, n⟩) ep =
      (iScoreOf st v).elim 0 fun iSeed => given iSeed ((selectIps db v).map endpoint) ep := by
  subst hn
  unfold gives
  dsimp only
  cases iScoreOf st v with
  | none => rfl
  | some iSeed =>
    refine congrArg List.sum (List.ext_getElem (by simp) fun i h1 h2 => ?_)
    simp

/-- The score of an address: the sum over the validators, and over the entries of each. -/
def ipScore (st : ScoreState) (db : IpReferrals) (ep : IpPort) : ℤ :=
  ∑ v ∈ validators db, (iScoreOf st v).elim 0 fun iSeed => given iSeed ((selectIps db v).map endpoint) ep

lemma keys_umValidators (hne : st.vsnNodes ≠ []) : (umValidators ord st db).keys.toFinset = validators db := by
  ext v
  rw [List.mem_toFinset, ← AList.mem_keys, mem_umValidators, and_iff_right hne, mem_validators]

lemma iScoreOf_of_nil (hin : InRange st) (hnil : st.vsnNodes = []) (v : Bytes) : iScoreOf st v = none := by
  unfold iScoreOf
  cases hidx : st.umPulicIdx v with
  | none => rfl
  | some i =>
    have hlt := hin v i hidx
    rw [hnil] at hlt
    exact absurd hlt (Nat.not_lt_zero i)

/-- **The sum over the map** is the sum over the validators. -/
lemma total_entries (hin : InRange st) (hsame : SameRows db) (ep : IpPort) :
    total ((ord.umValidators.arrange (umValidators ord st db).entries).flatMap (gives st db)) ep =
      ipScore st db ep := by
  have hone : ∀ vc ∈ (umValidators ord st db).entries, total (gives st db vc) ep =
      (iScoreOf st vc.1).elim 0 fun iSeed => given iSeed ((selectIps db vc.1).map endpoint) ep := by
    intro vc hvc
    obtain ⟨r, hr, hv, hn⟩ := lookup_umValidators (AList.mem_lookup_iff.2 hvc)
    refine total_gives ?_ ep
    rw [hn, count_eq_length hsame hr, hv]
  rw [total_flatMap, ((ord.umValidators.perm _).map _).sum_eq, List.map_congr_left hone]
  by_cases hnil : st.vsnNodes = []
  · have hempty : umValidators ord st db = ∅ := if_pos hnil
    rw [hempty, ipScore, Finset.sum_eq_zero fun v _ => by rw [iScoreOf_of_nil hin hnil]; rfl]
    rfl
  · rw [ipScore, ← @keys_umValidators ord st db hnil, List.sum_toFinset _ (umValidators ord st db).keys_nodup,
      AList.keys, List.keys, List.map_map]
    rfl

/-- Who is scored: the addresses that a validator in the map refers to. -/
lemma mem_entries (hin : InRange st) {ep : IpPort} :
    ep ∈ ((ord.umValidators.arrange (umValidators ord st db).entries).flatMap (gives st db)).map Prod.fst ↔
      ∃ v ∈ validators db, iScoreOf st v ≠ none ∧ ∃ r ∈ selectIps db v, endpoint r = ep := by
  have hgives : ∀ vc : Σ _ : Bytes, ℕ, ep ∈ (gives st db vc).map Prod.fst ↔
      iScoreOf st vc.1 ≠ none ∧ ∃ r ∈ selectIps db vc.1, endpoint r = ep := by
    intro vc
    unfold gives
    cases iScoreOf st vc.1 with
    | none => simp
    | some iSeed => simp [List.mem_iff_getElem]
  rw [List.map_flatMap, List.mem_flatMap]
  simp only [hgives, (ord.umValidators.perm _).mem_iff]
  constructor
  · rintro ⟨vc, hvc, hscore, hr⟩
    have hkey : vc.1 ∈ umValidators ord st db := AList.mem_keys.2 (List.mem_map_of_mem hvc)
    exact ⟨vc.1, mem_validators.2 (mem_umValidators.1 hkey).2, hscore, hr⟩
  · rintro ⟨v, hv, hscore, hr⟩
    have hne : st.vsnNodes ≠ [] := fun hnil => hscore (iScoreOf_of_nil hin hnil v)
    have hkey : v ∈ umValidators ord st db := mem_umValidators.2 ⟨hne, mem_validators.1 hv⟩
    obtain ⟨n, hn⟩ := Option.isSome_iff_exists.1 (AList.lookup_isSome.2 hkey)
    exact ⟨⟨v, n⟩, AList.mem_lookup_iff.1 hn, hscore, hr⟩

/-- The points of one validator. -/
lemma iPoints_bounded {iSeed : ℤ} (hs : 0 ≤ iSeed) (n : ℕ) :
    (∀ i < n, (ipBase iSeed n).bind (ipPoints · n i) = some (iPoints iSeed n i) ∧ 0 ≤ iPoints iSeed n i) ∧
      (∀ i j, i ≤ j → iPoints iSeed n j ≤ iPoints iSeed n i) ∧
      ∑ i ∈ Finset.range n, iPoints iSeed n i ≤ iSeed := by
  refine ⟨fun i hi => ⟨?_, ?_⟩, fun i j hij => ?_, ?_⟩
  · rw [ipBase_eq (by omega), Option.bind_some, ipPoints_eq (by omega)]
    rfl
  · rw [iPoints_eq_share]
    exact share_nonneg (fallingBase_nonneg hs n) hi.le
  · rw [iPoints_eq_share, iPoints_eq_share]
    exact share_antitone (fallingBase_nonneg hs n) n hij
  · simp only [iPoints_eq_share]
    exact sum_share_fallingBase_le hs n

lemma iScoreOf_nonneg (hpos : ∀ sn ∈ st.vsnNodes, 0 ≤ sn.iScore) {v : Bytes} {iSeed : ℤ}
    (h : iScoreOf st v = some iSeed) : 0 ≤ iSeed := by
  obtain ⟨i, -, hi⟩ := Option.bind_eq_some_iff.1 h
  obtain ⟨sn, hsn, rfl⟩ := Option.map_eq_some_iff.1 hi
  exact hpos sn (List.mem_of_getElem? hsn)

/-- **Scores of addresses**: every validator gives points that are not negative, fall from entry to entry and are
no more than its score; no division fails; and the score of an address is the sum of what all validators in the map
give to it, in whatever order they are visited. -/
theorem scores_of_ips (ord : Orders) (hin : InRange st) (hpos : ∀ sn ∈ st.vsnNodes, 0 ≤ sn.iScore)
    (hsame : SameRows db) :
    (∀ strValidator iSeed, iScoreOf st strValidator = some iSeed →
      (∀ i < (selectIps db strValidator).length,
        (ipBase iSeed (selectIps db strValidator).length).bind
            (ipPoints · (selectIps db strValidator).length i) =
          some (iPoints iSeed (selectIps db strValidator).length i) ∧
        0 ≤ iPoints iSeed (selectIps db strValidator).length i) ∧
      (∀ i j, i ≤ j → iPoints iSeed (selectIps db strValidator).length j ≤
        iPoints iSeed (selectIps db strValidator).length i) ∧
      ∑ i ∈ Finset.range (selectIps db strValidator).length,
        iPoints iSeed (selectIps db strValidator).length i ≤ iSeed) ∧
    ∃ umScore, scoreIps ord st db = some umScore ∧
      (∀ ep, ep ∈ umScore ↔
        ∃ v ∈ validators db, iScoreOf st v ≠ none ∧ ∃ r ∈ selectIps db v, endpoint r = ep) ∧
      ∀ ep, (umScore.lookup ep).getD 0 =
        ∑ v ∈ validators db, (iScoreOf st v).elim 0 fun iSeed => given iSeed ((selectIps db v).map endpoint) ep := by
  refine ⟨fun v iSeed hv => iPoints_bounded (iScoreOf_nonneg hpos hv) _, _, scoreIps_eq hin, fun ep => ?_, fun ep => ?_⟩
  · rw [mem_tally, or_iff_left (AList.notMem_empty ep), mem_entries hin]
  · rw [lookup_tally, AList.lookup_empty, Option.getD_none, zero_add, total_entries hin hsame]
    rfl

/-- Everything in the order it is kept. -/
def inOrder : Orders := ⟨⟨id, .refl⟩, ⟨id, .refl⟩, ⟨id, .refl⟩⟩

/-- A validator that refers to one address twice. -/
def threeIps : IpReferrals :=
  ⟨[⟨.blob [1], 2, .blob (cString "10.0.0.1"), .integer 6561⟩,
    ⟨.blob [1], 0, .blob (cString "10.0.0.1"), .integer 6561⟩,
    ⟨.blob [1], 1, .blob (cString "10.0.0.2"), .integer (-1)⟩], by decide⟩

theorem scores_of_ips_threeIps : ∃ umScore, scoreIps inOrder (ScoreState.init.push [1] 1500) threeIps = some umScore ∧
    (umScore.lookup (cString "10.0.0.1", 6561)).getD 0 = 1000 := by
  have hin : InRange (ScoreState.init.push [1] 1500) := by
    intro k i h
    by_cases hk : k = [1]
    · subst hk
      cases h
      exact Nat.zero_lt_one
    · have hnone : (ScoreState.init.push [1] 1500).umPulicIdx k = none := Function.update_of_ne hk _ _
      rw [hnone] at h
      cases h
  have hblobs : ∀ r ∈ threeIps.rows, ∃ s : Bytes, s.length < 2 ^ 31 ∧ r.Validator = .blob s := by
    intro r hr
    simp only [threeIps, List.mem_cons, List.not_mem_nil, or_false] at hr
    rcases hr with rfl | rfl | rfl <;> exact ⟨[1], by decide, rfl⟩
  obtain ⟨-, umScore, hscore, -, hsum⟩ :=
    scores_of_ips inOrder hin (by decide) (sameRows_of_blobs hblobs)
  exact ⟨umScore, hscore, (hsum _).trans (by decide +kernel)⟩

end Newcoin.UniqueNodeList
