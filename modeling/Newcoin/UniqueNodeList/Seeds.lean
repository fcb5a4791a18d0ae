import Newcoin.Lib.Sql
import Newcoin.NewcoinAddress
import Newcoin.UniqueNodeList.Fetch
import Newcoin.UniqueNodeList.Tables
import Mathlib.Data.Finset.Dedup
import Mathlib.Data.Finset.Basic

/-!
# Seed domains

The rows of `SeedDomains` while domains are added, removed and fetched.  Threads run with their call
stacks, as in `Fetch`; here a frame is the part of a call up to the next section that holds the lock of
the database, and a chain carries the domain and the file it is about.  A row is the record that
`setSeedDomains` writes and `getSeedDomains` reads back.
-/

namespace Newcoin.UniqueNodeList.Seeds

open Lib Lib.Sql HttpsClient Fetch NewcoinAddress

/-! ### Records -/

/-- `seedDomain`. -/
structure SeedDomain where
  strDomain : Bytes
  naPublicKey : NewcoinAddress
  vsSource : ValidatorSource
  tpNext : Time
  tpScan : Time
  tpFetch : Time
  iSha256 : BaseUInt 256
  strComment : Bytes

abbrev SeedDomains := Table SeedDomain.strDomain

def getSeedDomains (strDomain : Bytes) (db : SeedDomains) : Option SeedDomain :=
  (db.select fun r => r.strDomain = strDomain).head?

def iToSeconds (ptWhen : Time) : ℤ := ptWhen.getD (-1)

def ptFromSeconds (iSeconds : ℤ) : Time := if iSeconds < 0 then none else some iSeconds

/-- What is read back of a record: a key that is not valid is stored as `NULL`, and times as seconds. -/
def SeedDomain.stored (env : Crypto) (sdSource : SeedDomain) : SeedDomain :=
  { sdSource with
    naPublicKey := if sdSource.naPublicKey.isValid env then sdSource.naPublicKey else clear
    tpNext := ptFromSeconds (iToSeconds sdSource.tpNext)
    tpScan := ptFromSeconds (iToSeconds sdSource.tpScan)
    tpFetch := ptFromSeconds (iToSeconds sdSource.tpFetch) }

/-- The statement of `setSeedDomains`. -/
def replaceSeedDomain (env : Crypto) (sdSource : SeedDomain) (db : SeedDomains) : SeedDomains :=
  db.replace (sdSource.stored env)

/-- `SELECT Domain,Next FROM SeedDomains INDEXED BY SeedDomainNext ORDER BY Next LIMIT 1`. -/
def selectNext (db : SeedDomains) : Option SeedDomain :=
  (orderBy (fun r => iToSeconds r.tpNext) (db.select fun _ => true)).head?

/-- `iSourceScore` of an enumerator. -/
def sourceScore (vsWhy : ValidatorSource) : ℤ := (iSourceScore (some vsWhy)).toOption.getD 0

/-! ### Chains -/

/-- A `newcoin.txt` that is being processed; `secSite` is its sections. -/
structure Chain where
  strDomain : Bytes
  strSiteFile : Bytes
  naNodePublic : NewcoinAddress
  deriving DecidableEq

def Chain.secSite (c : Chain) : Section := ParseSection c.strSiteFile true

/-- The completion a request is made with. -/
inductive Request
  | responseFetch (strDomain : Bytes)
  | responseValidators (c : Chain)
  | responseIps (c : Chain)
  deriving DecidableEq

/-- What a file leads to. -/
inductive Part
  /-- Its own sections. -/
  | sections
  /-- The list behind `[validators_url]`. -/
  | validators
  /-- The list behind `[ips_url]`. -/
  | ips
  deriving DecidableEq, Repr

/-- A part of a call. -/
inductive Frame
  /-- `fetchNext`, up to the end of its first section. -/
  | fetchNext
  /-- Not full: determine next scan. -/
  | fetchNextSelect
  /-- `nodeAddDomain`, up to the lookup. -/
  | nodeAddDomain (strDomain : Bytes) (vsWhy : ValidatorSource) (strComment : Bytes)
  /-- `setSeedDomains(sdCurrent, true)` of `nodeAddDomain`. -/
  | nodeAddDomainSet (sdCurrent : SeedDomain)
  | nodeRemoveDomain (strDomain : Bytes)
  | nodeReset
  /-- `responseFetch`, up to the lookup. -/
  | responseFetch (strDomain : Bytes) (err : ErrorCode) (strSiteFile : Bytes)
  /-- `setSeedDomains(sdCurrent, true)` of `responseFetch`. -/
  | responseFetchSet (c : Chain) (sdCurrent : SeedDomain) (bChangedB : Bool)
  /-- `processFile`: the validators. -/
  | processFile (c : Chain)
  /-- `processFile`: the ips. -/
  | processFileIps (c : Chain)
  | getValidatorsUrl (c : Chain)
  | responseValidators (c : Chain) (err : ErrorCode)
  | getIpsUrl (c : Chain)
  | responseIps (c : Chain) (err : ErrorCode)
  | fetchFinish (strDomain : Bytes)

/-- The completion runs. -/
def Request.invoke (err : ErrorCode) (strData : Bytes) : Request → Frame
  | .responseFetch strDomain => .responseFetch strDomain err strData
  | .responseValidators c => .responseValidators c err
  | .responseIps c => .responseIps c err

/-- What the threads share; the last three members only record. -/
structure Shared where
  SeedDomains : SeedDomains
  mFetchActive : ℤ
  mtpFetchNext : Time
  /-- The HTTPS requests in flight. -/
  requests : List Request
  /-- An `assert` has failed. -/
  aborted : Bool
  /-- Domains removed, and not added again. -/
  removed : Finset Bytes
  /-- The files downloaded, with the domain each was fetched for. -/
  downloads : List (Bytes × Bytes)
  /-- The parts of files that have been processed. -/
  processed : List (Bytes × Bytes × Part)

/-- What a frame reads, and what is not modelled here of what it does. -/
structure Choice where
  tpNow : ℤ
  /-- The domains that `processValidators` adds. -/
  adds : List (Bytes × ValidatorSource × Bytes)
  /-- `processIps` throws. -/
  throws : Bool

structure Functions where
  crypto : Crypto
  /-- `Serializer::getSHA512Half`. -/
  getSHA512Half : Bytes → BaseUInt 256

variable (env : Functions) (i : Choice)

/-! ### The functions -/

/-- `setSeedDomains(sdSource, true)`, which may be led to `fetchNext` under its lock. -/
def setSeedDomains (sdSource : SeedDomain) (s : Shared) : Shared × List Frame :=
  ({ s with SeedDomains := replaceSeedDomain env.crypto sdSource s.SeedDomains },
    if s.mtpFetchNext = none ∨ Time.gt s.mtpFetchNext sdSource.tpNext then [.fetchNext] else [])

/-- The section of `fetchNext` that holds the lock of the database. -/
def fetchNextSelect (s : Shared) : Shared × List Frame :=
  match selectNext s.SeedDomains with
  | none => (s, [])
  | some row =>
    let strDomain := row.strDomain
    let bFull := s.mFetchActive = NODE_FETCH_JOBS
    if strDomain = [] ∨ bFull then (s, [])
    else if Time.gt row.tpNext (some i.tpNow) then ({ s with mtpFetchNext := row.tpNext }, [])
    else
      match getSeedDomains strDomain s.SeedDomains with
      | none => ({ s with aborted := true }, [])
      | some sdCurrent =>
        let sdCurrent := { sdCurrent with
          tpScan := some i.tpNow
          tpNext := some (i.tpNow + 7 * 24 * 3600) }
        ({ s with
          mFetchActive := s.mFetchActive + 1
          mtpFetchNext := none
          SeedDomains := replaceSeedDomain env.crypto sdCurrent s.SeedDomains
          requests := s.requests ++ [.responseFetch strDomain] }, [.fetchNext])

/-- The lookup of `nodeAddDomain`, and what it makes of the row. -/
def nodeAddDomain (strDomain : Bytes) (vsWhy : ValidatorSource) (strComment : Bytes) (s : Shared) : List Frame :=
  let strDomain := (trim strDomain).map toLower
  match getSeedDomains strDomain s.SeedDomains with
  | none => [.nodeAddDomainSet ⟨strDomain, clear, vsWhy, some i.tpNow, none, none, BaseUInt.zero 256, strComment⟩]
  | some sdCurrent =>
    let bPromote := sourceScore vsWhy ≥ sourceScore sdCurrent.vsSource
    let sdCurrent := if bPromote then { sdCurrent with vsSource := vsWhy, strComment := strComment } else sdCurrent
    let sdCurrent := if vsWhy = .vsManual then { sdCurrent with tpNext := some i.tpNow } else sdCurrent
    if bPromote ∨ vsWhy = .vsManual then [.nodeAddDomainSet sdCurrent] else []

/-- `bGood` of `responseFetch`: the public key, if nothing is wrong. -/
def goodFile (strDomain : Bytes) (err : ErrorCode) (strSiteFile : Bytes) : Option NewcoinAddress :=
  let secSite := ParseSection strSiteFile true
  if err ≠ .success ∨ sectionSingleB secSite SECTION_DOMAIN ≠ some strDomain then none
  else
    match sectionSingleB secSite SECTION_PUBLIC_KEY with
    | none => none
    | some strNodePublicKey =>
      if (setNodePublic env.crypto strNodePublicKey).1 then some (setNodePublic env.crypto strNodePublicKey).2
      else none

/-- `responseFetch`, up to the lookup; an `assert` that fails ends the program. -/
def responseFetch (strDomain : Bytes) (err : ErrorCode) (strSiteFile : Bytes) (s : Shared) : Shared × List Frame :=
  let s := if err = .success then { s with downloads := s.downloads ++ [(strDomain, strSiteFile)] } else s
  match goodFile env strDomain err strSiteFile with
  | none => (s, [.fetchFinish strDomain])
  | some naNodePublic =>
    match getSeedDomains strDomain s.SeedDomains with
    | none => ({ s with aborted := true }, [])
    | some sdCurrent =>
      let iSha256 := env.getSHA512Half strSiteFile
      let bChangedB : Bool := sdCurrent.iSha256 ≠ iSha256
      let sdCurrent := { sdCurrent with
        strDomain := strDomain
        naPublicKey := naNodePublic
        tpFetch := some i.tpNow
        iSha256 := iSha256 }
      (s, [.responseFetchSet ⟨strDomain, strSiteFile, naNodePublic⟩ sdCurrent bChangedB])

/-- The domains that `processValidators` adds. -/
def processValidators : List Frame := i.adds.map fun a => .nodeAddDomain a.1 a.2.1 a.2.2

/-- One frame: the shared state after it, and the calls still to make. -/
def exec (s : Shared) : Frame → Shared × List Frame
  | .fetchNext =>
    let bFull := s.mFetchActive = NODE_FETCH_JOBS
    if bFull then (s, []) else (s, [.fetchNextSelect])
  | .fetchNextSelect => fetchNextSelect env i s
  | .nodeAddDomain strDomain vsWhy strComment => (s, nodeAddDomain i strDomain vsWhy strComment s)
  | .nodeAddDomainSet sdCurrent =>
    setSeedDomains env sdCurrent { s with removed := s.removed.erase sdCurrent.strDomain }
  | .nodeRemoveDomain strDomain =>
    let strDomain := (trim strDomain).map toLower
    ({ s with
      SeedDomains := s.SeedDomains.delete fun r => r.strDomain = strDomain
      removed := insert strDomain s.removed }, [])
  | .nodeReset =>
    ({ s with
      SeedDomains := s.SeedDomains.delete fun _ => true
      removed := s.removed ∪ (s.SeedDomains.rows.map SeedDomain.strDomain).toFinset }, [])
  | .responseFetch strDomain err strSiteFile => responseFetch env i strDomain err strSiteFile s
  | .responseFetchSet c sdCurrent bChangedB =>
    let r := setSeedDomains env sdCurrent s
    (r.1, r.2 ++ [if bChangedB then .processFile c else .fetchFinish c.strDomain])
  | .processFile c => (s, processValidators i ++ [.processFileIps c])
  | .processFileIps c =>
    if i.throws then (s, [])
    else ({ s with processed := s.processed ++ [(c.strDomain, c.strSiteFile, .sections)] }, [.getValidatorsUrl c])
  | .getValidatorsUrl c =>
    if (sectionUrl c.secSite SECTION_VALIDATORS_URL).isSome then
      ({ s with requests := s.requests ++ [.responseValidators c] }, [])
    else (s, [.getIpsUrl c])
  | .responseValidators c err =>
    if err = .success then
      ({ s with processed := s.processed ++ [(c.strDomain, c.strSiteFile, .validators)] },
        processValidators i ++ [.getIpsUrl c])
    else (s, [.getIpsUrl c])
  | .getIpsUrl c =>
    if (sectionUrl c.secSite SECTION_IPS_URL).isSome then
      ({ s with requests := s.requests ++ [.responseIps c] }, [])
    else (s, [.fetchFinish c.strDomain])
  | .responseIps c err =>
    if err = .success then
      if i.throws then (s, [])
      else ({ s with processed := s.processed ++ [(c.strDomain, c.strSiteFile, .ips)] }, [.fetchFinish c.strDomain])
    else (s, [.fetchFinish c.strDomain])
  | .fetchFinish _ => ({ s with mFetchActive := s.mFetchActive - 1 }, [.fetchNext])

/-! ### Runs -/

/-- A thread begins: somebody calls one of the functions, or a request completes. -/
inductive Begin : Shared → Shared → List Frame → Prop
  | fetchNext (s : Shared) : Begin s s [.fetchNext]
  | nodeAddDomain (s : Shared) (strDomain : Bytes) (vsWhy : ValidatorSource) (strComment : Bytes) :
      Begin s s [.nodeAddDomain strDomain vsWhy strComment]
  | nodeRemoveDomain (s : Shared) (strDomain : Bytes) : Begin s s [.nodeRemoveDomain strDomain]
  | nodeReset (s : Shared) : Begin s s [.nodeReset]
  | complete {s : Shared} {pre post : List Request} {complete : Request}
      (h : s.requests = pre ++ complete :: post) (err : ErrorCode) (strData : Bytes) :
      Begin s { s with requests := pre ++ post } [complete.invoke err strData]

/-- The program ends and starts again: the table is what is left. -/
def restart (s : Shared) : Threads Shared Frame :=
  ⟨{ s with mFetchActive := 0, mtpFetchNext := none, requests := [], aborted := false }, []⟩

/-- What may happen in a run: which frames may run in which state, and when the program may end. -/
structure Guard where
  frame : Choice → Shared → Frame → Prop
  restart : Threads Shared Frame → Prop

/-- Everything may. -/
def anything : Guard := ⟨fun _ _ _ => True, fun _ => True⟩

/-- A frame runs, whatever it reads. -/
def Exec (g : Guard) (f : Frame) (s s' : Shared) (calls : List Frame) : Prop :=
  ∃ i, g.frame i s f ∧ exec env i s f = (s', calls)

inductive Step (g : Guard) : Threads Shared Frame → Threads Shared Frame → Prop
  | thread {s t : Threads Shared Frame} (h : Threads.Step (Exec env g) Begin s t) : Step g s t
  | restart {s : Threads Shared Frame} (h : g.restart s) : Step g s (restart s.shared)

/-- `UniqueNodeList::UniqueNodeList` on a new database. -/
def init : Threads Shared Frame := ⟨⟨Table.empty, 0, none, [], false, ∅, [], []⟩, []⟩

/-- The states of the runs. -/
def Reachable (g : Guard) (s : Threads Shared Frame) : Prop := Relation.ReflTransGen (Step env g) init s

variable {env} in
/-- **The induction rule**: what every frame that may run keeps, and every thread that begins, and the end of
the program where it may end. -/
theorem Reachable.invariant {g : Guard} {I : Shared → Multiset Frame → Prop} (hinit : I init.shared 0)
    (hrun : ∀ i f s s' calls others, I s (f ::ₘ others) → g.frame i s f → exec env i s f = (s', calls) →
      I s' ((calls : Multiset Frame) + others))
    (hbegin : ∀ s s' calls others, I s others → Begin s s' calls → I s' ((calls : Multiset Frame) + others))
    (hrestart : ∀ s, I s.shared s.frames → g.restart s → I (restart s.shared).shared 0)
    {s : Threads Shared Frame} (h : Reachable env g s) : I s.shared s.frames := by
  induction h with
  | refl => exact hinit
  | tail _ hstep ih =>
    cases hstep with
    | thread h =>
      refine h.invariant ?_ hbegin ih
      rintro f s s' calls others hs ⟨i, hmay, hexec⟩
      exact hrun i f s s' calls others hs hmay hexec
    | restart hmay => exact hrestart _ ih hmay

/-- A stack by itself, for `fuel` frames: the shared state, and what is left of the stack. -/
def runStack : ℕ → Shared → List Frame → Shared × List Frame
  | 0, s, stack => (s, stack)
  | _ + 1, s, [] => (s, [])
  | fuel + 1, s, f :: stack =>
    let r := exec env i s f
    runStack fuel r.1 (r.2 ++ stack)

/-- The frames that `runStack` runs are all ones that may. -/
def Meets (g : Guard) : ℕ → Shared → List Frame → Prop
  | 0, _, _ => True
  | _ + 1, _, [] => True
  | fuel + 1, s, f :: stack =>
    let r := exec env i s f
    g.frame i s f ∧ Meets g fuel r.1 (r.2 ++ stack)

instance Meets.decidable (g : Guard) [∀ s f, Decidable (g.frame i s f)] :
    ∀ fuel s stack, Decidable (Meets env i g fuel s stack)
  | 0, _, _ => isTrue trivial
  | _ + 1, _, [] => isTrue trivial
  | fuel + 1, _, _ :: _ =>
    have := Meets.decidable g fuel
    inferInstanceAs (Decidable (_ ∧ _))

variable {env} {g : Guard} {s : Shared} {threads : List (List Frame)} {stack : List Frame}

lemma meets_anything (fuel : ℕ) : Meets env i anything fuel s stack := by
  induction fuel generalizing s stack with
  | zero => trivial
  | succ fuel ih =>
    cases stack with
    | nil => trivial
    | cons f stack => exact ⟨trivial, ih⟩

lemma reachable_runStack (fuel : ℕ) (h : Reachable env g ⟨s, threads ++ [stack]⟩)
    (hmeets : Meets env i g fuel s stack) :
    Reachable env g ⟨(runStack env i fuel s stack).1, threads ++ [(runStack env i fuel s stack).2]⟩ := by
  induction fuel generalizing s stack with
  | zero => exact h
  | succ fuel ih =>
    cases stack with
    | nil => exact h
    | cons f stack => exact ih (h.tail (.thread (.run ⟨i, hmeets.1, rfl⟩))) hmeets.2

/-- A thread begins and runs by itself. -/
lemma reachable_begin (fuel : ℕ) {s' : Shared} {calls : List Frame} (h : Reachable env g ⟨s, threads⟩)
    (hbegin : Begin s s' calls) (hmeets : Meets env i g fuel s' calls) :
    Reachable env g ⟨(runStack env i fuel s' calls).1, threads ++ [(runStack env i fuel s' calls).2]⟩ :=
  reachable_runStack i fuel (h.tail (.thread (.thread hbegin))) hmeets

end Newcoin.UniqueNodeList.Seeds
