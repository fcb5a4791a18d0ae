import Newcoin.UniqueNodeList.SeedRecords
import Newcoin.UniqueNodeList.SeedRows
import Mathlib.Data.List.Induction

/-!
# Where seeds are known from

Seed domains and seed nodes while they are added and fetched, and none removed.  An operation here is a whole
lookup with the statement that follows it; the calls it leads to are operations of their own.

* `standing`: what the adds of one key leave, the last of those with the highest score.
* `Represents`: the columns `Source` and `Comment` of a table hold what stands for each key.
* `holds_run`: every operation does to the tables what it does to what stands.
* `sources_rise`: the result for runs.
-/

namespace Newcoin.UniqueNodeList.SeedRecords

open Lib.Sql NewcoinAddress
open Seeds (ptFromSeconds goodFile Functions)

/-! ### Operations -/

/-- What an operation finds: the time, the member of a new record that nobody sets, and whether as many fetches
as may be are active. -/
structure Moment where
  tpNow : ℤ
  vsSource : UInt8
  bFull : Bool

structure State where
  SeedDomains : SeedDomains
  SeedNodes : SeedNodes
  /-- The domains that are being fetched. -/
  requests : List Bytes

inductive Operation
  | nodeAddDomain (strDomain : Bytes) (vsWhy : ValidatorSource) (strComment : Bytes)
  | nodeAddPublic (naNodePublic : NewcoinAddress) (vsWhy : ValidatorSource) (strComment : Bytes)
  | fetchNext
  /-- The fetch with this number completes. -/
  | responseFetch (n : ℕ) (err : ErrorCode) (strSiteFile : Bytes)
  deriving DecidableEq

variable (env : Functions) (i : Moment)

/-- `!bFound || iSourceScore(vsWhy) >= iSourceScore(current.vsSource)`. -/
def promotes (bFound : Bool) (vsWhy : ValidatorSource) (current : SeedNode) : Except Stop Bool :=
  if ¬ bFound then pure true
  else do
    let iWhy ← liftFault (iSourceScore (some vsWhy))
    let iSource ← liftFault (iSourceScore (ValidatorSource.ofChar current.vsSource))
    return iWhy ≥ iSource

/-- What `nodeAddDomain` and `nodeAddPublic` make of the record: promote source, if needed; a manual add forces
immediate scan.  `none` if nothing has changed. -/
def promote (bFound : Bool) (vsWhy : ValidatorSource) (strComment : Bytes) (current : SeedNode) :
    Except Stop (Option SeedNode) := do
  let bPromote ← promotes bFound vsWhy current
  let current := if bPromote then { current with vsSource := vsWhy.toChar, strComment } else current
  let current := if vsWhy = .vsManual then { current with tpNext := some i.tpNow } else current
  return if bPromote ∨ vsWhy = .vsManual then some current else none

/-- A new record. -/
def newSeed (naPublicKey : NewcoinAddress) : SeedNode :=
  ⟨naPublicKey, i.vsSource, some i.tpNow, none, none, BaseUInt.zero 256, []⟩

def nodeAddDomain (strDomain : Bytes) (vsWhy : ValidatorSource) (strComment : Bytes) (s : State) :
    Except Stop State := do
  let strDomain := (trim strDomain).map toLower
  let found := getSeedDomains env.crypto strDomain s.SeedDomains
  let sdCurrent := found.getD ⟨newSeed i clear, strDomain⟩
  match ← promote i found.isSome vsWhy strComment sdCurrent.toSeedNode with
  | none => return s
  | some current =>
    return { s with SeedDomains := ← setSeedDomains env.crypto ⟨current, sdCurrent.strDomain⟩ s.SeedDomains }

def nodeAddPublic (naNodePublic : NewcoinAddress) (vsWhy : ValidatorSource) (strComment : Bytes) (s : State) :
    Except Stop State := do
  let found ← getSeedNodes env.crypto naNodePublic s.SeedNodes
  let snCurrent := found.getD (newSeed i naNodePublic)
  match ← promote i found.isSome vsWhy strComment snCurrent with
  | none => return s
  | some current => return { s with SeedNodes := ← setSeedNodes env.crypto current s.SeedNodes }

/-- `SELECT Domain,Next FROM SeedDomains INDEXED BY SeedDomainNext ORDER BY Next LIMIT 1`. -/
def selectNext (db : SeedDomains) : Option DomainRow :=
  (orderBy (fun r => getInt r.Next) (db.select fun _ => true)).head?

def fetchNext (s : State) : Except Stop State :=
  match selectNext s.SeedDomains with
  | none => return s
  | some row =>
    let strDomain := row.Domain.bytes
    let tpNext := ptFromSeconds (getInt row.Next)
    if strDomain = [] ∨ i.bFull then return s
    else if Time.gt tpNext (some i.tpNow) then return s
    else
      (getSeedDomains env.crypto strDomain s.SeedDomains).elim (throw .assertion) fun sdCurrent => do
        let sdCurrent := { sdCurrent with
          tpScan := some i.tpNow
          tpNext := some (i.tpNow + 7 * 24 * 3600) }
        return { s with
          SeedDomains := ← setSeedDomains env.crypto sdCurrent s.SeedDomains
          requests := s.requests ++ [strDomain] }

def responseFetch (strDomain : Bytes) (err : ErrorCode) (strSiteFile : Bytes) (s : State) : Except Stop State :=
  match goodFile env strDomain err strSiteFile with
  | none => return s
  | some naNodePublic =>
    (getSeedDomains env.crypto strDomain s.SeedDomains).elim (throw .assertion) fun sdCurrent => do
      let sdCurrent := { sdCurrent with
        strDomain := strDomain
        naPublicKey := naNodePublic
        tpFetch := some i.tpNow
        iSha256 := env.getSHA512Half strSiteFile }
      return { s with SeedDomains := ← setSeedDomains env.crypto sdCurrent s.SeedDomains }

namespace Operation

def run : Operation → State → Except Stop State
  | nodeAddDomain strDomain vsWhy strComment => SeedRecords.nodeAddDomain env i strDomain vsWhy strComment
  | nodeAddPublic naNodePublic vsWhy strComment => SeedRecords.nodeAddPublic env i naNodePublic vsWhy strComment
  | fetchNext => SeedRecords.fetchNext env i
  | responseFetch n err strSiteFile => fun s =>
    match s.requests[n]? with
    | none => return s
    | some strDomain =>
      SeedRecords.responseFetch env i strDomain err strSiteFile { s with requests := s.requests.eraseIdx n }

/-- The sizes of its strings are not cut, and its key is a public key. -/
def Sized (env : Functions) : Operation → Prop
  | nodeAddDomain strDomain _ strComment => (trim strDomain).length < 2 ^ 31 ∧ strComment.length < 2 ^ 31
  | nodeAddPublic naNodePublic _ strComment =>
    naNodePublic.nVersion = VER_NODE_PUBLIC ∧ naNodePublic.isValid env.crypto = true ∧ strComment.length < 2 ^ 30
  | fetchNext => True
  | responseFetch _ _ _ => True

instance : DecidablePred (Sized env)
  | nodeAddDomain _ _ _ => inferInstanceAs (Decidable (_ ∧ _))
  | nodeAddPublic _ _ _ => inferInstanceAs (Decidable (_ ∧ _ ∧ _))
  | fetchNext | responseFetch _ _ _ => isTrue trivial

end Operation

/-- The tables are empty. -/
def init : State := ⟨Table.empty, Table.empty, []⟩

/-- A run, operation after operation. -/
def run (calls : List (Moment × Operation)) : Except Stop State :=
  calls.foldlM (fun s c => c.2.run env c.1 s) init

/-! ### What stands -/

structure Add where
  vsWhy : ValidatorSource
  strComment : Bytes
  deriving DecidableEq, Repr

def Add.score (a : Add) : ℤ := Seeds.sourceScore a.vsWhy

/-- What stands for a key once it is added again. -/
def raise (old : Option Add) (a : Add) : Option Add :=
  match old with
  | none => some a
  | some b => if b.score ≤ a.score then some a else some b

/-- What stands after some adds. -/
def standing (adds : List Add) : Option Add := adds.foldl raise none

/-- The score of the add is at least that of those before it. -/
def Promotes (pre : List Add) (a : Add) : Prop := ∀ b ∈ pre, b.score ≤ a.score

lemma standing_concat (adds : List Add) (a : Add) : standing (adds ++ [a]) = raise (standing adds) a := by
  rw [standing, List.foldl_append]
  rfl

lemma standing_append_toList (adds : List Add) (o : Option Add) :
    standing (adds ++ o.toList) = o.elim (standing adds) (raise (standing adds)) := by
  cases o with
  | none => exact congrArg standing (List.append_nil adds)
  | some a => exact standing_concat adds a

/-- **What stands** is the last add whose score is at least that of those before it, by induction on the adds
from the first on. -/
lemma standing_eq_some {adds : List Add} (h : adds ≠ []) : ∃ pre a post, standing adds = some a ∧
    adds = pre ++ a :: post ∧ Promotes pre a ∧ ∀ b ∈ post, b.score < a.score := by
  induction adds using List.reverseRecOn with
  | nil => exact absurd rfl h
  | append_singleton adds c ih =>
    rw [standing_concat]
    by_cases hne : adds = []
    · subst hne
      exact ⟨[], c, [], rfl, rfl, by simp [Promotes], by simp⟩
    · obtain ⟨pre, a, post, hstand, hadds, hpre, hpost⟩ := ih hne
      rw [hstand, raise]
      by_cases hc : a.score ≤ c.score
      · rw [if_pos hc]
        refine ⟨adds, c, [], rfl, rfl, fun b hb => ?_, by simp⟩
        rw [hadds, List.mem_append, List.mem_cons] at hb
        rcases hb with hb | rfl | hb
        · exact (hpre b hb).trans hc
        · exact hc
        · exact (hpost b hb).le.trans hc
      · rw [if_neg hc]
        refine ⟨pre, a, post ++ [c], rfl, by simp [hadds], hpre, fun b hb => ?_⟩
        rcases List.mem_append.1 hb with hb | hb
        · exact hpost b hb
        · rw [List.mem_singleton.1 hb]
          exact lt_of_not_ge hc

/-! ### One call -/

lemma iSourceScore_some (vsWhy : ValidatorSource) : iSourceScore (some vsWhy) = .ok (Seeds.sourceScore vsWhy) := by
  cases vsWhy <;> rfl

lemma sourceScore_le_manual (vsWhy : ValidatorSource) : Seeds.sourceScore vsWhy ≤ Seeds.sourceScore .vsManual := by
  cases vsWhy <;> decide

variable {env i}

/-- The record that is changed holds the new add, and the key it had. -/
lemma promote_spec {old : Option Add} {current : SeedNode}
    (hold : ∀ a, old = some a → current.vsSource = a.vsWhy.toChar) (a : Add) :
    (raise old a = old ∧ promote i old.isSome a.vsWhy a.strComment current = .ok none) ∨
    ∃ sn, raise old a = some a ∧ promote i old.isSome a.vsWhy a.strComment current = .ok (some sn) ∧
      sn.vsSource = a.vsWhy.toChar ∧ sn.strComment = a.strComment ∧ sn.naPublicKey = current.naPublicKey := by
  have hpromotes : promotes old.isSome a.vsWhy current =
      .ok (decide (∀ b, old = some b → b.score ≤ a.score)) := by
    cases old with
    | none => simp [promotes, pure, Except.pure]
    | some b =>
      simp only [promotes, hold b rfl, iSourceScore_some, ValidatorSource.ofChar_toChar]
      simp [liftFault, Except.mapError, bind, Except.bind, pure, Except.pure, Add.score]
  by_cases hb : ∀ b, old = some b → b.score ≤ a.score
  · right
    have hraise : raise old a = some a := by
      cases old with
      | none => rfl
      | some b => exact if_pos (hb b rfl)
    rw [promote, hpromotes, decide_eq_true hb]
    simp only [bind, Except.bind, pure, Except.pure, if_true, true_or]
    split_ifs
    · exact ⟨_, hraise, rfl, rfl, rfl, rfl⟩
    · exact ⟨_, hraise, rfl, rfl, rfl, rfl⟩
  · left
    obtain ⟨b, rfl, hlt⟩ : ∃ b, old = some b ∧ ¬ b.score ≤ a.score := by simpa using hb
    have hmanual : a.vsWhy ≠ .vsManual := by
      intro he
      apply hlt
      rw [Add.score, Add.score, he]
      exact sourceScore_le_manual _
    rw [promote, hpromotes, decide_eq_false hb]
    exact ⟨if_neg hlt, by simp [bind, Except.bind, pure, Except.pure, hmanual]⟩

/-! ### The tables hold what stands -/

section

variable {R K ι : Type*} {key : R → K} [DecidableEq K] (cols : R → SeedRow) (enc : ι → K) (src : UInt8 → Value)

/-- The row of each key holds the source and the comment that stand for it. -/
def Represents (db : Table key) (m : ι → Option Add) : Prop :=
  ∀ k, (db.find (enc k)).map (fun r => ((cols r).Source, (cols r).Comment)) =
    (m k).map fun a => (src a.vsWhy.toChar, .blob a.strComment)

variable {cols enc src} {db : Table key} {m : ι → Option Add}

lemma represents_replace [DecidableEq ι] (henc : Function.Injective enc) (h : Represents cols enc src db m)
    {row : R} {k : ι} {a : Add} (hkey : key row = enc k) (hsource : (cols row).Source = src a.vsWhy.toChar)
    (hcomment : (cols row).Comment = .blob a.strComment) :
    Represents cols enc src (db.replace row) (Function.update m k (some a)) := by
  intro k'
  rw [Table.find_replace, Function.update_apply, hkey]
  by_cases hk : k' = k
  · subst hk
    rw [if_pos rfl, if_pos rfl, Option.map_some, Option.map_some, hsource, hcomment]
  · rw [if_neg fun he => hk (henc he).symm, if_neg hk, h k']

/-- The source and the comment of a record. -/
def SeedNode.trust (sn : SeedNode) : UInt8 × Bytes := (sn.vsSource, sn.strComment)

/-- What is read of a row is what stands. -/
lemma Represents.trust (h : Represents cols enc src db m) (hsrc : ∀ c, (src c).bytes = [c]) (env : Crypto) (k : ι) :
    (db.find (enc k)).map (fun r => (readSeed env (cols r)).trust) =
      (m k).map fun a => (a.vsWhy.toChar, a.strComment) := by
  have hread := congrArg (Option.map fun v : Value × Value => (v.1.bytes.headD 0, v.2.bytes)) (h k)
  rw [Option.map_map, Option.map_map] at hread
  refine Eq.trans hread ?_
  refine Option.map_congr fun a _ => ?_
  rw [Function.comp_apply, hsrc]
  rfl

end

/-- A record of the domain, with the source and the comment of the add; its key, if any, is a node's. -/
structure Carries (env : Crypto) (sd : SeedDomain) (d : Bytes) (a : Add) : Prop where
  domain : sd.strDomain = d
  source : sd.vsSource = a.vsWhy.toChar
  comment : sd.strComment = a.strComment
  key : sd.naPublicKey.isValid env = true → sd.naPublicKey.nVersion = VER_NODE_PUBLIC

/-- What holds between any two operations, with what stands for domains and for nodes. -/
structure Holds (env : Crypto) (s : State) (mDomains : Bytes → Option Add)
    (mNodes : NewcoinAddress → Option Add) : Prop where
  domains : Represents DomainRow.toSeedRow .blob (fun c => .blob [c]) s.SeedDomains mDomains
  nodes : Represents id (fun na => .text (na.ToString env)) (fun c => .text [c]) s.SeedNodes mNodes
  keys : ∀ r ∈ s.SeedDomains.rows, ∃ d, r.Domain = .blob d
  sized : ∀ d a, mDomains d = some a → d.length < 2 ^ 31 ∧ a.strComment.length < 2 ^ 31
  requests : ∀ d ∈ s.requests, mDomains d ≠ none

namespace Holds

variable {s : State} {mDomains : Bytes → Option Add} {mNodes : NewcoinAddress → Option Add}

lemma trustDomain (h : Holds env.crypto s mDomains mNodes) {d : Bytes} (hd : d.length < 2 ^ 31) :
    (getSeedDomains env.crypto d s.SeedDomains).map (fun sd => sd.trust) =
      (mDomains d).map fun a => (a.vsWhy.toChar, a.strComment) := by
  rw [getSeedDomains_eq hd, Option.map_map]
  exact h.domains.trust (fun _ => rfl) env.crypto d

lemma trustNode (h : Holds env.crypto s mDomains mNodes) {na : NewcoinAddress} (hna : na.nVersion = VER_NODE_PUBLIC) :
    (getSeedNodes env.crypto na s.SeedNodes).map (Option.map SeedNode.trust) =
      .ok ((mNodes na).map fun a => (a.vsWhy.toChar, a.strComment)) := by
  rw [getSeedNodes_eq hna]
  refine congrArg Except.ok ?_
  rw [Option.map_map]
  exact h.nodes.trust (fun _ => rfl) env.crypto na

/-- The record of a domain is found with what stands for the domain. -/
lemma found (h : Holds env.crypto s mDomains mNodes) {d : Bytes} {a : Add} (ha : mDomains d = some a) :
    ∃ sd, getSeedDomains env.crypto d s.SeedDomains = some sd ∧ Carries env.crypto sd d a := by
  have hd := (h.sized d a ha).1
  have htrust := h.trustDomain hd
  rw [ha] at htrust
  obtain ⟨sd, hsd, hsa⟩ := Option.map_eq_some_iff.1 htrust
  refine ⟨sd, hsd, ?_, congrArg Prod.fst hsa, congrArg Prod.snd hsa, ?_⟩
  · rw [getSeedDomains_eq hd] at hsd
    obtain ⟨row, hrow, rfl⟩ := Option.map_eq_some_iff.1 hsd
    rw [readDomain, (Table.find_eq_some.1 hrow).2]
    rfl
  · rw [getSeedDomains_eq hd] at hsd
    obtain ⟨row, -, rfl⟩ := Option.map_eq_some_iff.1 hsd
    exact readSeed_version row.toSeedRow

/-- **A record is written** for a domain. -/
lemma write (h : Holds env.crypto s mDomains mNodes) {sd : SeedDomain} {d : Bytes} {a : Add}
    (hsd : Carries env.crypto sd d a) (hsized : d.length < 2 ^ 31 ∧ a.strComment.length < 2 ^ 31)
    (requests : List Bytes) (hrequests : ∀ d' ∈ requests, d' = d ∨ d' ∈ s.requests) :
    ∃ db, setSeedDomains env.crypto sd s.SeedDomains = .ok db ∧
      Holds env.crypto { s with SeedDomains := db, requests := requests } (Function.update mDomains d (some a))
        mNodes := by
  obtain ⟨PublicKey, hset, -⟩ :=
    setSeedDomains_eq hsd.key (hsd.domain ▸ hsized.1) (hsd.comment ▸ hsized.2) s.SeedDomains
  refine ⟨_, hset, ?_, h.nodes, ?_, ?_, ?_⟩
  · refine represents_replace (fun _ _ => Value.blob.inj) h.domains (congrArg Value.blob hsd.domain) ?_ ?_
    · exact congrArg (fun c => Value.blob [c]) hsd.source
    · exact congrArg Value.blob hsd.comment
  · intro r hr
    rcases Table.mem_replace.1 hr with rfl | ⟨hr, -⟩
    · exact ⟨_, rfl⟩
    · exact h.keys r hr
  · intro d' a' ha'
    by_cases hd : d' = d
    · subst hd
      rw [Function.update_self] at ha'
      cases ha'
      exact hsized
    · rw [Function.update_of_ne hd] at ha'
      exact h.sized d' a' ha'
  · intro d' hd'
    by_cases hd : d' = d
    · rw [hd, Function.update_self]
      exact Option.some_ne_none a
    · rw [Function.update_of_ne hd]
      exact h.requests d' ((hrequests d' hd').resolve_left hd)

/-- A record is written with the source and the comment that stand. -/
lemma rewrite (h : Holds env.crypto s mDomains mNodes) {sd : SeedDomain} {d : Bytes} {a : Add}
    (ha : mDomains d = some a) (hsd : Carries env.crypto sd d a) (requests : List Bytes)
    (hrequests : ∀ d' ∈ requests, d' = d ∨ d' ∈ s.requests) :
    ∃ db, setSeedDomains env.crypto sd s.SeedDomains = .ok db ∧
      Holds env.crypto { s with SeedDomains := db, requests := requests } mDomains mNodes := by
  have hwrite := h.write hsd (h.sized d a ha) requests hrequests
  rwa [Function.update_eq_self_iff.2 ha.symm] at hwrite

/-- The record that an add of the domain begins with. -/
lemma current (h : Holds env.crypto s mDomains mNodes) {d : Bytes} (hd : d.length < 2 ^ 31) :
    ∃ sd, (getSeedDomains env.crypto d s.SeedDomains).getD ⟨newSeed i clear, d⟩ = sd ∧
      (getSeedDomains env.crypto d s.SeedDomains).isSome = (mDomains d).isSome ∧ sd.strDomain = d ∧
      (∀ a, mDomains d = some a → sd.vsSource = a.vsWhy.toChar) ∧
      (sd.naPublicKey.isValid env.crypto = true → sd.naPublicKey.nVersion = VER_NODE_PUBLIC) := by
  cases hold : mDomains d with
  | none =>
    have htrust := h.trustDomain hd
    rw [hold, Option.map_none, Option.map_eq_none_iff] at htrust
    rw [htrust]
    exact ⟨_, rfl, rfl, rfl, fun a ha => absurd ha (Option.some_ne_none a).symm,
      fun hvalid => absurd hvalid Bool.false_ne_true⟩
  | some a =>
    obtain ⟨sd, hfound, hsd⟩ := h.found hold
    rw [hfound]
    refine ⟨sd, rfl, rfl, hsd.domain, fun b hb => ?_, hsd.key⟩
    cases hb
    exact hsd.source

lemma nodeAddDomain (h : Holds env.crypto s mDomains mNodes) {strDomain : Bytes} {a : Add}
    (hdomain : (trim strDomain).length < 2 ^ 31) (hcomment : a.strComment.length < 2 ^ 31) :
    ∃ s', SeedRecords.nodeAddDomain env i strDomain a.vsWhy a.strComment s = .ok s' ∧
      Holds env.crypto s' (Function.update mDomains ((trim strDomain).map toLower)
        (raise (mDomains ((trim strDomain).map toLower)) a)) mNodes := by
  have hd : ((trim strDomain).map toLower).length < 2 ^ 31 := by rwa [List.length_map]
  unfold SeedRecords.nodeAddDomain
  dsimp only
  generalize (trim strDomain).map toLower = d at hd ⊢
  obtain ⟨sd, hcurrent, hsome, hname, hold, hkey⟩ := @current env i s mDomains mNodes h d hd
  rw [hcurrent, hsome]
  rcases @promote_spec i _ sd.toSeedNode hold a with ⟨hraise, hpromote⟩ | ⟨sn, hraise, hpromote, hsource, hc, hpublic⟩
  · rw [hpromote, hraise, Function.update_eq_self]
    exact ⟨s, rfl, h⟩
  · rw [hpromote, hraise]
    have hsd : Carries env.crypto ⟨sn, sd.strDomain⟩ d a := ⟨hname, hsource, hc, hpublic ▸ hkey⟩
    obtain ⟨db, hset, hholds⟩ := h.write hsd ⟨hd, hcomment⟩ s.requests (fun d' hd' => .inr hd')
    refine ⟨_, ?_, hholds⟩
    simp only [bind, Except.bind, hset]
    rfl

/-- The same for a node. -/
lemma currentNode (h : Holds env.crypto s mDomains mNodes) {na : NewcoinAddress} (hna : na.nVersion = VER_NODE_PUBLIC) :
    ∃ found, getSeedNodes env.crypto na s.SeedNodes = .ok found ∧ found.isSome = (mNodes na).isSome ∧
      (∀ a, mNodes na = some a → (found.getD (newSeed i na)).vsSource = a.vsWhy.toChar) ∧
      (found.getD (newSeed i na)).naPublicKey = na := by
  refine ⟨_, getSeedNodes_eq hna s.SeedNodes, ?_⟩
  have htrust := h.nodes.trust (fun _ => rfl) env.crypto na
  cases hrow : s.SeedNodes.find (.text (na.ToString env.crypto)) with
  | none =>
    rw [hrow, Option.map_none, eq_comm, Option.map_eq_none_iff] at htrust
    rw [htrust]
    exact ⟨rfl, fun a ha => absurd ha (Option.some_ne_none a).symm, rfl⟩
  | some row =>
    rw [hrow, Option.map_some] at htrust
    obtain ⟨a, ha, htrust⟩ := Option.map_eq_some_iff.1 htrust.symm
    rw [ha]
    have hkey : row.PublicKey = .text (na.ToString env.crypto) := (Table.find_eq_some.1 hrow).2
    refine ⟨rfl, fun b hb => ?_, readSeed_key hna (by simp [hkey]) (by rw [hkey]; rfl)⟩
    cases hb
    exact (congrArg Prod.fst htrust).symm

lemma nodeAddPublic (h : Holds env.crypto s mDomains mNodes) {na : NewcoinAddress} {a : Add}
    (hna : na.nVersion = VER_NODE_PUBLIC) (hvalid : na.isValid env.crypto = true)
    (hcomment : a.strComment.length < 2 ^ 30) :
    ∃ s', SeedRecords.nodeAddPublic env i na a.vsWhy a.strComment s = .ok s' ∧
      Holds env.crypto s' mDomains (Function.update mNodes na (raise (mNodes na) a)) := by
  obtain ⟨found, hfound, hsome, hold, hkey⟩ := @currentNode env i s mDomains mNodes h na hna
  unfold SeedRecords.nodeAddPublic
  rw [hfound]
  simp only [bind, Except.bind]
  rw [hsome]
  rcases @promote_spec i _ _ hold a with ⟨hraise, hpromote⟩ | ⟨sn, hraise, hpromote, hsource, hc, hpublic⟩
  · rw [hpromote, hraise, Function.update_eq_self]
    exact ⟨s, rfl, h⟩
  · rw [hpromote, hraise]
    rw [hkey] at hpublic
    have hchar : sn.vsSource ≠ 39 := by
      rw [hsource]
      cases a.vsWhy <;> decide
    have hset := @setSeedNodes_eq env.crypto sn (hpublic ▸ hna) (hpublic ▸ hvalid) hchar (hc ▸ hcomment) s.SeedNodes
    simp only [hset]
    refine ⟨_, rfl, h.domains, ?_, h.keys, h.sized, h.requests⟩
    have henc : Function.Injective fun na : NewcoinAddress => Value.text (na.ToString env.crypto) := by
      intro x y hxy
      have hbytes := List.cons.inj (EncodeBase58Check_inj (Value.text.inj hxy))
      cases x
      cases y
      exact congrArg₂ NewcoinAddress.mk hbytes.1 hbytes.2
    refine represents_replace henc h.nodes ?_ ?_ ?_
    · exact congrArg (fun na : NewcoinAddress => Value.text (na.ToString env.crypto)) hpublic
    · exact congrArg (fun c => Value.text [c]) hsource
    · exact congrArg Value.blob hc

/-- A row that is selected belongs to a domain for which something stands. -/
lemma selected (h : Holds env.crypto s mDomains mNodes) {row : DomainRow} (hrow : row ∈ s.SeedDomains.rows) :
    ∃ a, mDomains row.Domain.bytes = some a := by
  obtain ⟨d, hd⟩ := h.keys row hrow
  have hfind : s.SeedDomains.find (.blob d) = some row := Table.find_eq_some.2 ⟨hrow, hd⟩
  have hstand := h.domains d
  rw [hfind, Option.map_some] at hstand
  obtain ⟨a, ha, -⟩ := Option.map_eq_some_iff.1 hstand.symm
  rw [hd]
  exact ⟨a, ha⟩

lemma fetchNext (h : Holds env.crypto s mDomains mNodes) :
    ∃ s', SeedRecords.fetchNext env i s = .ok s' ∧ Holds env.crypto s' mDomains mNodes := by
  unfold SeedRecords.fetchNext
  cases hrow : selectNext s.SeedDomains with
  | none => exact ⟨s, rfl, h⟩
  | some row =>
    have hmem : row ∈ s.SeedDomains.rows :=
      (List.mem_filter.1 ((perm_orderBy _ _).mem_iff.1 (List.mem_of_mem_head? hrow))).1
    obtain ⟨a, ha⟩ := h.selected hmem
    obtain ⟨sd, hfound, hsd⟩ := h.found ha
    dsimp only
    split_ifs
    · exact ⟨s, rfl, h⟩
    · exact ⟨s, rfl, h⟩
    · rw [hfound, Option.elim_some]
      have hscan : Carries env.crypto { sd with
          tpScan := some i.tpNow
          tpNext := some (i.tpNow + 7 * 24 * 3600) } row.Domain.bytes a :=
        ⟨hsd.domain, hsd.source, hsd.comment, hsd.key⟩
      obtain ⟨db, hset, hholds⟩ := h.rewrite ha hscan (s.requests ++ [row.Domain.bytes]) fun d hd => by
        simpa [or_comm] using hd
      refine ⟨_, ?_, hholds⟩
      simp only [bind, Except.bind, hset]
      rfl

lemma goodFile_version {strDomain strSiteFile : Bytes} {err : ErrorCode} {na : NewcoinAddress}
    (h : goodFile env strDomain err strSiteFile = some na) : na.nVersion = VER_NODE_PUBLIC := by
  unfold goodFile at h
  dsimp only at h
  split_ifs at h
  split at h
  · cases h
  · split_ifs at h with hgood
    cases h
    exact SetString_eq env.crypto hgood

lemma responseFetch (h : Holds env.crypto s mDomains mNodes) {d : Bytes} (hd : mDomains d ≠ none) (err : ErrorCode)
    (strSiteFile : Bytes) : ∃ s', SeedRecords.responseFetch env i d err strSiteFile s = .ok s' ∧
      Holds env.crypto s' mDomains mNodes := by
  unfold SeedRecords.responseFetch
  cases hfile : goodFile env d err strSiteFile with
  | none => exact ⟨s, rfl, h⟩
  | some na =>
    obtain ⟨a, ha⟩ := Option.ne_none_iff_exists'.1 hd
    obtain ⟨sd, hfound, hsd⟩ := h.found ha
    dsimp only
    rw [hfound, Option.elim_some]
    have hfetch : Carries env.crypto { sd with
        strDomain := d
        naPublicKey := na
        tpFetch := some i.tpNow
        iSha256 := env.getSHA512Half strSiteFile } d a :=
      ⟨rfl, hsd.source, hsd.comment, fun _ => goodFile_version hfile⟩
    obtain ⟨db, hset, hholds⟩ := h.rewrite ha hfetch s.requests (fun d' hd' => .inr hd')
    refine ⟨_, ?_, hholds⟩
    simp only [bind, Except.bind, hset]
    rfl

end Holds

/-! ### Runs -/

namespace Operation

/-- What is added for the domain. -/
def domainAdd (d : Bytes) : Operation → Option Add
  | nodeAddDomain strDomain vsWhy strComment =>
    if (trim strDomain).map toLower = d then some ⟨vsWhy, strComment⟩ else none
  | _ => none

/-- What is added for the node. -/
def nodeAdd (na : NewcoinAddress) : Operation → Option Add
  | nodeAddPublic naNodePublic vsWhy strComment => if naNodePublic = na then some ⟨vsWhy, strComment⟩ else none
  | _ => none

end Operation

/-- The adds for a domain, in order. -/
def domainAdds (d : Bytes) (calls : List (Moment × Operation)) : List Add :=
  calls.flatMap fun c => (c.2.domainAdd d).toList

/-- The adds for a node, in order. -/
def nodeAdds (na : NewcoinAddress) (calls : List (Moment × Operation)) : List Add :=
  calls.flatMap fun c => (c.2.nodeAdd na).toList

lemma raise_eq_update {ι : Type*} [DecidableEq ι] (m : ι → Option Add) (k : ι) (a : Add) :
    (fun k' => (if k = k' then some a else none : Option Add).elim (m k') (raise (m k'))) =
      Function.update m k (raise (m k) a) := by
  funext k'
  rw [Function.update_apply]
  by_cases hk : k' = k
  · subst hk
    rw [if_pos rfl, if_pos rfl, Option.elim_some]
  · rw [if_neg fun he => hk he.symm, if_neg hk, Option.elim_none]

/-- **Every operation** runs to its end, and does to the tables what it does to what stands. -/
lemma holds_run {s : State} {mDomains : Bytes → Option Add} {mNodes : NewcoinAddress → Option Add}
    (h : Holds env.crypto s mDomains mNodes) {op : Operation} (hop : op.Sized env) : ∃ s', op.run env i s = .ok s' ∧
      Holds env.crypto s' (fun d => (op.domainAdd d).elim (mDomains d) (raise (mDomains d)))
        (fun na => (op.nodeAdd na).elim (mNodes na) (raise (mNodes na))) := by
  cases op with
  | nodeAddDomain strDomain vsWhy strComment =>
    have hadd := @Holds.nodeAddDomain env i s mDomains mNodes h strDomain ⟨vsWhy, strComment⟩ hop.1 hop.2
    rw [← raise_eq_update] at hadd
    exact hadd
  | nodeAddPublic naNodePublic vsWhy strComment =>
    have hadd := @Holds.nodeAddPublic env i s mDomains mNodes h naNodePublic ⟨vsWhy, strComment⟩ hop.1 hop.2.1 hop.2.2
    rw [← raise_eq_update] at hadd
    exact hadd
  | fetchNext => exact h.fetchNext
  | responseFetch n err strSiteFile =>
    simp only [Operation.run]
    cases hn : s.requests[n]? with
    | none => exact ⟨s, rfl, h⟩
    | some d =>
      have hrest : Holds env.crypto { s with requests := s.requests.eraseIdx n } mDomains mNodes :=
        { h with requests := fun d' hd' => h.requests d' (List.mem_of_mem_eraseIdx hd') }
      exact hrest.responseFetch (h.requests d (List.mem_of_getElem? hn)) err strSiteFile

lemma holds_init : Holds env.crypto init (fun _ => none) (fun _ => none) where
  domains _ := rfl
  nodes _ := rfl
  keys _ hr := absurd hr List.not_mem_nil
  sized _ _ ha := absurd ha.symm (Option.some_ne_none _)
  requests _ hd := absurd hd List.not_mem_nil

lemma run_concat (calls : List (Moment × Operation)) (c : Moment × Operation) :
    run env (calls ++ [c]) = run env calls >>= c.2.run env c.1 := by
  rw [run, List.foldlM_append]
  simp [run]

/-- **After a run** the tables hold what stands after its adds, by induction on the operations from the first
on. -/
lemma holds_after {calls : List (Moment × Operation)} (h : ∀ c ∈ calls, c.2.Sized env) :
    ∃ s, run env calls = .ok s ∧
      Holds env.crypto s (fun d => standing (domainAdds d calls)) (fun na => standing (nodeAdds na calls)) := by
  induction calls using List.reverseRecOn with
  | nil => exact ⟨init, rfl, holds_init⟩
  | append_singleton calls c ih =>
    obtain ⟨s, hrun, hholds⟩ := ih fun d hd => h d (List.mem_append_left _ hd)
    obtain ⟨s', hstep, hholds'⟩ := @holds_run env c.1 s _ _ hholds c.2
      (h c (List.mem_append_right _ (List.mem_singleton_self c)))
    refine ⟨s', ?_, ?_⟩
    · rw [run_concat, hrun]
      exact hstep
    · simpa only [domainAdds, nodeAdds, List.flatMap_append, List.flatMap_singleton, standing_append_toList]
        using hholds'

/-- The record that is stored for a key, after these adds: nothing before the first; then the highest source so
far, with the comment of the last add whose score was at least the maximum at that time. -/
def Risen (adds : List Add) (stored : Option SeedNode) : Prop :=
  (adds = [] → stored = none) ∧
  (adds ≠ [] → ∃ sn m, stored = some sn ∧ iSourceScore (ValidatorSource.ofChar sn.vsSource) = .ok m ∧
    IsGreatest {n | ∃ a ∈ adds, a.score = n} m ∧
    ∃ pre a post, adds = pre ++ a :: post ∧ Promotes pre a ∧
      (∀ pre' b post', post = pre' ++ b :: post' → ¬ Promotes (pre ++ a :: pre') b) ∧
      sn.vsSource = a.vsWhy.toChar ∧ sn.strComment = a.strComment)

lemma risen_of_trust {adds : List Add} {stored : Option SeedNode}
    (h : stored.map SeedNode.trust = (standing adds).map fun a => (a.vsWhy.toChar, a.strComment)) :
    Risen adds stored := by
  constructor
  · rintro rfl
    exact Option.map_eq_none_iff.1 h
  · intro hne
    obtain ⟨pre, a, post, hstand, hadds, hpre, hpost⟩ := standing_eq_some hne
    rw [hstand] at h
    obtain ⟨sn, hsn, htrust⟩ := Option.map_eq_some_iff.1 h
    have hsource : sn.vsSource = a.vsWhy.toChar := congrArg Prod.fst htrust
    refine ⟨sn, a.score, hsn, ?_, ⟨⟨a, by simp [hadds], rfl⟩, ?_⟩, pre, a, post, hadds, hpre, ?_, hsource,
      congrArg Prod.snd htrust⟩
    · rw [hsource, ValidatorSource.ofChar_toChar]
      exact iSourceScore_some a.vsWhy
    · rintro n ⟨b, hb, rfl⟩
      rw [hadds, List.mem_append, List.mem_cons] at hb
      rcases hb with hb | rfl | hb
      · exact hpre b hb
      · exact le_rfl
      · exact (hpost b hb).le
    · intro pre' b post' hsplit hpromotes
      have hlt := hpost b (by simp [hsplit])
      exact absurd (hpromotes a (by simp)) (not_le.2 hlt)

/-- **The trust source of a seed only rises**: in every run whose strings are not cut, every operation runs to
its end, each seed is stored with the highest source of its adds and the comment that came with it, and an
operation changes neither for a key it does not add. -/
theorem sources_rise (env : Functions) (calls : List (Moment × Operation)) (hcalls : ∀ c ∈ calls, c.2.Sized env) :
    ∃ s, run env calls = .ok s ∧
      (∀ d : Bytes, d.length < 2 ^ 31 →
        Risen (domainAdds d calls) ((getSeedDomains env.crypto d s.SeedDomains).map SeedDomain.toSeedNode)) ∧
      (∀ na : NewcoinAddress, na.nVersion = VER_NODE_PUBLIC →
        ∃ stored, getSeedNodes env.crypto na s.SeedNodes = .ok stored ∧ Risen (nodeAdds na calls) stored) ∧
      ∀ (i : Moment) (op : Operation), op.Sized env → ∃ s', op.run env i s = .ok s' ∧
        (∀ d : Bytes, d.length < 2 ^ 31 → op.domainAdd d = none →
          (getSeedDomains env.crypto d s'.SeedDomains).map (fun sd => sd.trust) =
            (getSeedDomains env.crypto d s.SeedDomains).map fun sd => sd.trust) ∧
        ∀ na : NewcoinAddress, na.nVersion = VER_NODE_PUBLIC → op.nodeAdd na = none →
          (getSeedNodes env.crypto na s'.SeedNodes).map (Option.map SeedNode.trust) =
            (getSeedNodes env.crypto na s.SeedNodes).map (Option.map SeedNode.trust) := by
  obtain ⟨s, hrun, hholds⟩ := holds_after hcalls
  refine ⟨s, hrun, fun d hd => risen_of_trust ?_, fun na hna => ?_, fun i op hop => ?_⟩
  · rw [Option.map_map]
    exact hholds.trustDomain hd
  · refine ⟨_, getSeedNodes_eq hna s.SeedNodes, risen_of_trust ?_⟩
    have htrust := hholds.trustNode hna
    rw [getSeedNodes_eq hna] at htrust
    exact Except.ok.inj htrust
  · obtain ⟨s', hstep, hholds'⟩ := @holds_run env i s _ _ hholds op hop
    refine ⟨s', hstep, fun d hd hnone => ?_, fun na hna hnone => ?_⟩
    · rw [hholds'.trustDomain hd, hholds.trustDomain hd, hnone, Option.elim_none]
    · rw [hholds'.trustNode hna, hholds.trustNode hna, hnone, Option.elim_none]

/-- A domain that is fetched between its adds, and a node. -/
theorem sources_rise_fetched :
    let noon : Moment := ⟨43200, 0, false⟩
    let calls : List (Moment × Operation) := [
      (noon, .nodeAddDomain (cString "x.com") .vsValidator (cString "first")), (noon, .fetchNext),
      (noon, .nodeAddDomain (cString " X.com") .vsWeb (cString "second")),
      (noon, .nodeAddPublic referrer .vsReferral (cString "node")),
      (noon, .responseFetch 0 .success Seeds.siteFile),
      (noon, .nodeAddDomain (cString "X.COM") .vsManual (cString "third"))]
    ∃ s, run Seeds.keys calls = .ok s ∧
      Risen [⟨.vsValidator, cString "first"⟩, ⟨.vsWeb, cString "second"⟩, ⟨.vsManual, cString "third"⟩]
        ((getSeedDomains Seeds.keys.crypto (cString "x.com") s.SeedDomains).map SeedDomain.toSeedNode) ∧
      ∃ stored, getSeedNodes Seeds.keys.crypto referrer s.SeedNodes = .ok stored ∧
        Risen [⟨.vsReferral, cString "node"⟩] stored := by
  intro noon calls
  obtain ⟨s, hrun, hdomains, hnodes, -⟩ := sources_rise Seeds.keys calls (by decide)
  exact ⟨s, hrun, hdomains (cString "x.com") (by decide), hnodes referrer rfl⟩

/-! ### A comment that is cut -/

/-- The comment of a new domain matters only as it is escaped. -/
lemma run_of_escape {c c' : Bytes} (h : Database.escape c = Database.escape c') :
    run Seeds.keys [(⟨43200, 0, false⟩, .nodeAddDomain (cString "x.com") .vsManual c)] =
      run Seeds.keys [(⟨43200, 0, false⟩, .nodeAddDomain (cString "x.com") .vsManual c')] := by
  have hnone : getSeedDomains Seeds.keys.crypto (cString "x.com") init.SeedDomains = none := by
    rw [getSeedDomains_eq (by decide)]
    rfl
  have hdomain : (trim (cString "x.com")).map toLower = cString "x.com" := by decide
  have hset (sn : SeedNode) : setSeedDomains Seeds.keys.crypto ⟨{ sn with strComment := c }, cString "x.com"⟩ =
      setSeedDomains Seeds.keys.crypto ⟨{ sn with strComment := c' }, cString "x.com"⟩ := by
    funext db
    unfold setSeedDomains seedRow
    dsimp only
    rw [h]
  have hadd (c : Bytes) : run Seeds.keys [(⟨43200, 0, false⟩, .nodeAddDomain (cString "x.com") .vsManual c)] =
      (setSeedDomains Seeds.keys.crypto ⟨{ newSeed ⟨43200, 77, false⟩ clear with strComment := c }, cString "x.com"⟩
        init.SeedDomains).map fun db => { init with SeedDomains := db } := by
    simp only [run, List.foldlM_cons, List.foldlM_nil, Operation.run, nodeAddDomain, hdomain, hnone]
    have hpromote : promote ⟨43200, 0, false⟩ false .vsManual c (newSeed ⟨43200, 0, false⟩ clear) =
      .ok (some { newSeed ⟨43200, 77, false⟩ clear with strComment := c }) := rfl
    simp only [Option.isSome_none, Option.getD_none, hpromote, bind, Except.bind]
    cases setSeedDomains Seeds.keys.crypto
      ⟨{ newSeed ⟨43200, 77, false⟩ clear with strComment := c }, cString "x.com"⟩ init.SeedDomains with
    | error e => rfl
    | ok db => rfl
  rw [hadd, hadd, hset]

/-- A comment of 2^31 bytes is stored as the empty one. -/
theorem long_comment_lost :
    let strComment : Bytes := List.replicate (2 ^ 31) 0
    ∃ s sd, run Seeds.keys [(⟨43200, 0, false⟩, .nodeAddDomain (cString "x.com") .vsManual strComment)] = .ok s ∧
      getSeedDomains Seeds.keys.crypto (cString "x.com") s.SeedDomains = some sd ∧ sd.strComment ≠ strComment := by
  intro strComment
  have hlen : strComment.length = 2 ^ 31 := List.length_replicate
  generalize strComment = c at hlen ⊢
  obtain ⟨s, hrun, hholds⟩ := @holds_after Seeds.keys
    [(⟨43200, 0, false⟩, .nodeAddDomain (cString "x.com") .vsManual [])] (by decide)
  obtain ⟨sd, hfound, hsd⟩ := hholds.found
    (show standing (domainAdds (cString "x.com") _) = some ⟨.vsManual, []⟩ by decide)
  refine ⟨s, sd, ?_, hfound, ?_⟩
  · rw [run_of_escape (escape_of_length hlen), hrun]
  · rw [hsd.comment]
    rintro rfl
    exact absurd hlen (by decide)

end Newcoin.UniqueNodeList.SeedRecords
