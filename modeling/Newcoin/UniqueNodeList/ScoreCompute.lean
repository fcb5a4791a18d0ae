import Newcoin.NewcoinAddress
import Newcoin.UniqueNodeList.ScoreRound
import Newcoin.UniqueNodeList.Tables
import Mathlib.Data.Finset.Dedup

/-!
# Scoring

`scoreCompute` up to the point where `TrustedNodes` and `mUNL` are written; the scores of addresses
come after it.  A node that is pushed while the referrals of another one are read leaves the references
to that one in place, as if the vector had room; `ReferralWalk` has what happens otherwise.
-/

namespace Newcoin.UniqueNodeList

open Lib.Sql NewcoinAddress

/-- The tables read. -/
structure Wallet where
  SeedDomains : Table SeedDomainRow.Domain
  SeedNodes : Table SeedNodeRow.PublicKey
  ValidatorReferrals : ValidatorReferrals
  TrustedNodes : Table TrustedNode.PublicKey

/-- The local variables. -/
structure ScoreState where
  /-- Map of public key to index. -/
  umPulicIdx : Bytes → Option ℕ
  /-- Map of domain to index. -/
  umDomainIdx : Bytes → Option ℕ
  /-- Index to scoring node. -/
  vsnNodes : List ScoreNode

namespace ScoreState

def init : ScoreState := ⟨fun _ => none, fun _ => none, []⟩

/-- Add a node. -/
def push (strValidator : Bytes) (iScore : ℤ) (st : ScoreState) : ScoreState :=
  let iNode := st.vsnNodes.length
  { st with
    umPulicIdx := Function.update st.umPulicIdx strValidator (some iNode)
    vsnNodes := st.vsnNodes ++ [⟨iScore, 0, iScore, -1, strValidator, []⟩] }

end ScoreState

/-- Update old node. -/
def ScoreNode.raise (iScore : ℤ) (snOld : ScoreNode) : ScoreNode :=
  if snOld.iScore < iScore then { snOld with iScore := iScore, iRoundSeed := iScore } else snOld

/-! ### Seeds -/

/-- A public key with the score of its source. -/
def seed (strPublicKey : Bytes) (iScore : ℤ) (st : ScoreState) : ScoreState :=
  match st.umPulicIdx strPublicKey with
  | none => st.push strPublicKey iScore
  | some iNode => { st with vsnNodes := st.vsnNodes.modify iNode (ScoreNode.raise iScore) }

/-- The score of the source in a row: `strSource[0]` of an empty string is zero. -/
def sourceScore (Source : Value) : Except Fault ℤ := iSourceScore (ValidatorSource.ofChar (Source.bytes.headD 0))

/-- For each entry in `SeedDomains` with a `PublicKey`. -/
def seedDomain (st : ScoreState) (r : SeedDomainRow) : Except Fault ScoreState :=
  if r.PublicKey = .null then .ok st
  else do
    let strDomain := r.Domain.bytes
    let strPublicKey := r.PublicKey.bytes
    let iScore ← sourceScore r.Source
    let iNode := st.vsnNodes.length
    let umDomainIdx := if st.umPulicIdx strPublicKey = none then
      Function.update st.umDomainIdx strDomain (some iNode) else st.umDomainIdx
    return { seed strPublicKey iScore st with umDomainIdx := umDomainIdx }

/-- For each entry in `SeedNodes`. -/
def seedNode (st : ScoreState) (r : SeedNodeRow) : Except Fault ScoreState := do
  let iScore ← sourceScore r.Source
  return seed r.PublicKey.bytes iScore st

/-- The two loops over the seeds. -/
def seeds (db : Wallet) : Except Fault ScoreState := do
  let st ← db.SeedDomains.rows.foldlM seedDomain ScoreState.init
  db.SeedNodes.rows.foldlM seedNode st

/-! ### Referrals -/

variable (env : Crypto)

/-- `iReferral`, `none` for `-1`: a public key that is not found is added. -/
def referral? (strReferral : Bytes) (st : ScoreState) : Option ℕ × ScoreState :=
  if (setNodePublic env strReferral).1 then
    match st.umPulicIdx strReferral with
    -- `iSourceScore(vsReferral)` is zero
    | none => (some st.vsnNodes.length, st.push strReferral 0)
    | some iReferral => (some iReferral, st)
  else (st.umDomainIdx strReferral, st)

/-- `viReferrals.push_back(iReferral)`. -/
def ScoreNode.refer (iReferral : ℕ) (sn : ScoreNode) : ScoreNode :=
  { sn with viReferrals := sn.viReferrals ++ [iReferral] }

/-- One referral of a node. -/
def walkReferral (iNode : ℕ) (st : ScoreState) (r : ValidatorReferral) : ScoreState :=
  let next := referral? env r.Referral.bytes st
  match next.1 with
  | none => next.2
  | some iReferral =>
    if iNode = iReferral then next.2
    else { next.2 with vsnNodes := next.2.vsnNodes.modify iNode (ScoreNode.refer iReferral) }

/-- The validation list of a node. -/
def walkNode (db : ValidatorReferrals) (iNode : ℕ) (st : ScoreState) : ScoreState :=
  match st.vsnNodes[iNode]? with
  | none => st
  | some sn => (selectReferrals db sn.strValidator).foldl (walkReferral env iNode) st

/-- Step through growing list of nodes adding each validation list; `none` if `fuel` nodes are not
enough. -/
def walk (db : ValidatorReferrals) : ℕ → ℕ → ScoreState → Option ScoreState
  | 0, iNode, st => if iNode = st.vsnNodes.length then some st else none
  | fuel + 1, iNode, st =>
    if iNode = st.vsnNodes.length then some st else walk db fuel (iNode + 1) (walkNode env db iNode st)

/-! ### Persist validator scores -/

/-- `iSeen` from a row, `-1` for `NULL`. -/
def ScoreNode.see (Seen : Option ℤ) (sn : ScoreNode) : ScoreNode := { sn with iSeen := Seen.getD (-1) }

/-- Load existing Seens from DB. -/
def loadSeen (st : ScoreState) (r : TrustedNode) : ScoreState :=
  let iNode := (st.umPulicIdx r.PublicKey.bytes).getD 0
  { st with vsnNodes := st.vsnNodes.modify iNode (ScoreNode.see r.Seen) }

/-- The row that replaces a node's; the comment gets its default. -/
def trustedNode (sn : ScoreNode) : TrustedNode where
  PublicKey := .blob sn.strValidator
  Score := sn.iScore
  Seen := if sn.iSeen ≥ 0 then some sn.iSeen else none
  Comment := .null

/-- `UPDATE TrustedNodes SET Score = 0 WHERE Score != 0`. -/
def clearScores (db : Table TrustedNode.PublicKey) : Table TrustedNode.PublicKey :=
  db.update (fun r => if r.Score ≠ 0 then { r with Score := 0 } else r) fun r => by split <;> rfl

/-- `TrustedNodes` and `mUNL` afterwards. -/
def persist (st : ScoreState) (db : Table TrustedNode.PublicKey) : Table TrustedNode.PublicKey × Finset Bytes :=
  let db := clearScores db
  let seen := db.select fun r => st.vsnNodes.any fun sn => r.PublicKey = .blob sn.strValidator
  let st := seen.foldl loadSeen st
  let usUNL := (st.vsnNodes.map ScoreNode.strValidator).toFinset
  (db.replaceAll (st.vsnNodes.map trustedNode), usUNL)

/-- `scoreCompute`; `none` if `fuel` is not enough. -/
def scoreCompute (fuel : ℕ) (db : Wallet) : Option (Except Fault (Table TrustedNode.PublicKey × Finset Bytes)) :=
  match seeds db with
  | .error e => some (.error e)
  | .ok st =>
    match walk env db.ValidatorReferrals fuel 0 st with
    | none => none
    | some st =>
      some (.ok (persist { st with vsnNodes := scoreRounds SCORE_ROUNDS st.vsnNodes } db.TrustedNodes))

/-! ### Reading the list -/

/-- `trustedLoad`: `mUNL` from the table. -/
def trustedLoad (db : Table TrustedNode.PublicKey) : Finset Bytes :=
  ((db.select fun r => r.Score ≠ 0).map fun r => r.PublicKey.bytes).toFinset

def nodeInUNL (mUNL : Finset Bytes) (naNodePublic : NewcoinAddress) : Except Fault Bool := do
  let strNodePublic ← naNodePublic.humanNodePublic env
  return decide (strNodePublic ∈ mUNL)

end Newcoin.UniqueNodeList
