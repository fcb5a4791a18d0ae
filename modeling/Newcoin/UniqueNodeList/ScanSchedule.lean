import Newcoin.UniqueNodeList.IpScores
import Newcoin.UniqueNodeList.ReferralWalk

/-!
# Scoring and the scan schedule

`PeerIps` also says when the pool is to scan an address next: never, if it is connected.  `REPLACE` names three
columns, and gives the others their defaults: scan at once.

* `scored_iff`: which addresses are scored.
* `keeps_schedule_iff`: which rows `scoreCompute` leaves on their schedule.
-/

namespace Newcoin.UniqueNodeList

open Lib.Sql Lib.Tally NewcoinAddress

/-! ### Who is scored -/

/-- The columns of the schedule. -/
def schedule (r : PeerIpRow) : Option ℤ × ℤ := (r.ScanNext, r.ScanInterval)

/-- The schedule of a row that is inserted without one. -/
def scheduleDefault : Option ℤ × ℤ := (some 0, 0)

/-- The addresses that a known validator refers to. -/
def Scored (env : Crypto) (wallet : Wallet) (db : IpReferrals) (ep : IpPort) : Prop :=
  ∃ v ∈ validators db, Known env wallet v ∧ ∃ r ∈ selectIps db v, endpoint r = ep

variable {ord : Orders} {st : ScoreState} {db : IpReferrals} {env : Crypto} {wallet : Wallet} {R : ℕ → List Bytes}

/-- The rounds keep every position. -/
lemma length_scoreRounds (i : ℕ) (vsn : List ScoreNode) : (scoreRounds i vsn).length = vsn.length := by
  have hkeys := congrArg List.length (strValidator_rounds i vsn)
  rw [List.length_map, List.length_map] at hkeys
  rw [scoreRounds_eq, hkeys]

/-- A state after the walk, whatever the scores: the map holds the positions of those who are known. -/
lemma inRange_of_walked (h : WalkedTo env wallet st.vsnNodes.length R st) (i : ℕ) :
    InRange { st with vsnNodes := scoreRounds i st.vsnNodes } := by
  intro k iNode hk
  rw [length_scoreRounds]
  exact lt_of_keyAt ((h.walked.index k iNode).1 hk)

lemma iScoreOf_iff_known (h : WalkedTo env wallet st.vsnNodes.length R st) (i : ℕ) (v : Bytes) :
    iScoreOf { st with vsnNodes := scoreRounds i st.vsnNodes } v ≠ none ↔ Known env wallet v := by
  rw [← known_iff h, mem_keys_iff, iScoreOf]
  constructor
  · intro hscore
    obtain ⟨iNode, hidx⟩ : ∃ iNode, st.umPulicIdx v = some iNode := by
      refine Option.ne_none_iff_exists'.1 fun hnone => hscore ?_
      rw [hnone]
      rfl
    exact ⟨iNode, (h.walked.index v iNode).1 hidx⟩
  · rintro ⟨iNode, hi⟩
    have hlt : iNode < (scoreRounds i st.vsnNodes).length := by
      rw [length_scoreRounds]
      exact lt_of_keyAt hi
    rw [(h.walked.index v iNode).2 hi, Option.bind_some, List.getElem?_eq_getElem hlt]
    exact Option.some_ne_none _

/-- **The addresses with a score.** -/
lemma scored_iff (h : WalkedTo env wallet st.vsnNodes.length R st) {umScore : AList fun _ : IpPort => ℤ} {i : ℕ}
    (hscore : scoreIps ord { st with vsnNodes := scoreRounds i st.vsnNodes } db = some umScore) (ep : IpPort) :
    ep ∈ umScore.entries.map Sigma.fst ↔ Scored env wallet db ep := by
  have hin := inRange_of_walked h i
  rw [scoreIps_eq hin, Option.some_inj] at hscore
  subst hscore
  refine AList.mem_keys.symm.trans ?_
  rw [mem_tally, or_iff_left (AList.notMem_empty ep), mem_entries hin]
  simp only [iScoreOf_iff_known h, Scored]

/-! ### The rows they replace -/

/-- Every address can be written. -/
lemma peerIpRow_eq (ipScore : Σ _ : IpPort, ℤ) : ∃ row, peerIpRow ipScore = some row ∧
    literal (Database.escape (ConnectionPool.ipPortText ipScore.1)) = some row.IpPort ∧
      schedule row = scheduleDefault := by
  unfold peerIpRow Database.escape
  rw [literal_escape]
  exact ⟨_, rfl, rfl, rfl⟩

lemma mapM_peerIpRow (es : List (Σ _ : IpPort, ℤ)) : ∃ rows, es.mapM peerIpRow = some rows ∧
    (∀ row ∈ rows, schedule row = scheduleDefault) ∧
      ∀ k, k ∈ rows.map PeerIpRow.IpPort ↔
        ∃ e ∈ es, literal (Database.escape (ConnectionPool.ipPortText e.1)) = some k := by
  induction es with
  | nil => exact ⟨[], rfl, by simp, by simp⟩
  | cons e es ih =>
    obtain ⟨row, hrow, hkey, hdefault⟩ := peerIpRow_eq e
    obtain ⟨rows, hrows, hdefaults, hkeys⟩ := ih
    refine ⟨row :: rows, ?_, ?_, fun k => ?_⟩
    · rw [List.mapM_cons, hrow, hrows]
      rfl
    · exact List.forall_mem_cons.2 ⟨hdefault, hdefaults⟩
    · simp only [List.map_cons, List.mem_cons, hkeys, exists_eq_or_imp, hkey, Option.some_inj, @eq_comm _ k]

/-- The keys that are written. -/
def Rewritten (env : Crypto) (wallet : Wallet) (db : IpReferrals) (IpPort : Value) : Prop :=
  ∃ ep, Scored env wallet db ep ∧ literal (Database.escape (ConnectionPool.ipPortText ep)) = some IpPort

/-- **`REPLACE INTO PeerIps`** leaves exactly those rows on their schedule that it does not find, or that were to be
scanned at once already. -/
lemma keeps_replaceScores {umScore : AList fun _ : IpPort => ℤ} {peers : PeerIps}
    (hscored : ∀ ep, ep ∈ umScore.entries.map Sigma.fst ↔ Scored env wallet db ep) :
    peers.Keeps schedule (replaceScores ord umScore (clearIpScores peers)) ↔
      ∀ row ∈ peers.rows, Rewritten env wallet db row.IpPort → schedule row = scheduleDefault := by
  have hclear : ∀ t : PeerIps, (clearIpScores peers).Keeps schedule t ↔ peers.Keeps schedule t :=
    fun t => Table.keeps_update_left fun r => by split <;> rfl
  have hrewritten : ∀ k, Rewritten env wallet db k ↔
      ∃ e ∈ umScore.entries, literal (Database.escape (ConnectionPool.ipPortText e.1)) = some k := by
    intro k
    simp only [Rewritten, ← hscored, List.mem_map]
    exact ⟨fun ⟨_, ⟨e, he, heq⟩, hk⟩ => ⟨e, he, heq ▸ hk⟩, fun ⟨e, he, hk⟩ => ⟨e.1, ⟨e, he, rfl⟩, hk⟩⟩
  rw [← hclear]
  unfold replaceScores
  split_ifs with hnil
  · have hnone : ∀ k, ¬ Rewritten env wallet db k := by simp [hrewritten, hnil]
    simp only [hnone, false_imp_iff, implies_true, iff_true]
    exact fun r hr => ⟨r, hr, rfl, rfl⟩
  · obtain ⟨rows, hrows, hdefault, hkeys⟩ := mapM_peerIpRow (ord.umScore.arrange umScore.entries)
    simp only [(ord.umScore.perm _).mem_iff, ← hrewritten] at hkeys
    rw [hrows, Option.elim_some, Table.keeps_replaceAll_iff hdefault]
    simp only [hkeys, clearIpScores, Table.update, List.forall_mem_map]
    refine forall₂_congr fun row _ => ?_
    split <;> rfl

/-- One seed that refers to nobody. -/
def loneSeed : Wallet where
  SeedDomains := Table.empty
  SeedNodes := ⟨[⟨.blob referrerText, .text (cString "V")⟩], List.nodup_singleton _⟩
  ValidatorReferrals := Table.empty
  TrustedNodes := Table.empty

/-- It lists an address. -/
def oneIp : IpReferrals :=
  ⟨[⟨.blob referrerText, 0, .blob (cString "10.0.0.1"), .integer 6561⟩], List.nodup_singleton _⟩

/-- The pool is connected to this address. -/
def connectedIp : PeerIps :=
  ⟨[⟨.blob (cString "10.0.0.1 6561"), 0, .text (cString "T"), none, 120⟩], List.nodup_singleton _⟩

/-- The rows, as the pool reads them. -/
def scanRows (peers : PeerIps) : List ConnectionPool.PeerIp :=
  peers.rows.map fun r => ⟨r.IpPort.bytes, r.ScanNext, r.ScanInterval⟩

end Newcoin.UniqueNodeList
