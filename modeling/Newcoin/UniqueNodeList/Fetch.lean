import Newcoin.BaseUInt
import Newcoin.HttpsClient.Defs
import Newcoin.Lib.Threads
import Newcoin.ParseSection

/-!
# Fetching `newcoin.txt`

`fetchNext` takes a slot and starts a chain of calls and HTTPS requests, which gives the slot back in
`fetchFinish`.  Threads run with their call stacks; a frame is the part of a call up to the next lock
section, call or end.  What the calls read from the database and the clock is an input (`Choice`), as
is how often the database writes they make come back into `fetchNext`.
-/

namespace Newcoin.UniqueNodeList.Fetch

open Lib HttpsClient

/-- `NODE_FETCH_JOBS`. -/
def NODE_FETCH_JOBS : ℤ := 10

def SECTION_DOMAIN : Bytes := cString "domain"

def SECTION_PUBLIC_KEY : Bytes := cString "validation_public_key"

def SECTION_IPS_URL : Bytes := cString "ips_url"

def SECTION_VALIDATORS_URL : Bytes := cString "validators_url"

/-! ### Chains -/

/-- The two functions whose results only their callers look at. -/
structure Functions where
  /-- `NewcoinAddress::setNodePublic(const std::string&)`. -/
  setNodePublic : Bytes → Bool
  /-- `Serializer::getSHA512Half`. -/
  getSHA512Half : Bytes → BaseUInt 256

/-- What a frame reads, and how often it is led back to `fetchNext`. -/
structure Choice where
  /-- The first row of `SeedDomains` by `Next`, and the clock: `strDomain`, `tpNext`, `tpNow`. -/
  row : Option (Bytes × Time × Time)
  /-- The `Sha256` stored for the domain. -/
  iSha256 : BaseUInt 256
  /-- `setSeedDomains(sdCurrent, true)` schedules an earlier wake up. -/
  wake : Bool
  /-- How many `nodeAddDomain` calls of `processValidators` do. -/
  wakes : ℕ

/-- A call that a chain of fetches makes. -/
inductive Call
  | fetchProcess (strDomain : Bytes)
  | responseFetch (strDomain : Bytes) (err : ErrorCode) (strSiteFile : Bytes)
  | processFile (secSite : Section)
  | getValidatorsUrl (secSite : Section)
  | responseValidators (secSite : Section) (err : ErrorCode)
  | getIpsUrl (secSite : Section)
  | responseIps (err : ErrorCode)
  | fetchFinish

/-- The completion a request is made with. -/
inductive Callback
  | responseFetch (strDomain : Bytes)
  | responseValidators (secSite : Section)
  | responseIps

/-- The completion runs. -/
def Callback.invoke (err : ErrorCode) (strData : Bytes) : Callback → Call
  | .responseFetch strDomain => .responseFetch strDomain err strData
  | .responseValidators secSite => .responseValidators secSite err
  | .responseIps => .responseIps err

/-- How a chain goes on. -/
inductive Next
  | call (c : Call)
  | httpsGet (complete : Callback)

variable (env : Functions) (i : Choice)

/-! The functions of a chain: how often they lead to `fetchNext` on the way, and how the chain goes on. -/

def fetchProcess (strDomain : Bytes) : ℕ × Next := (0, .httpsGet (.responseFetch strDomain))

def responseFetch (strDomain : Bytes) (err : ErrorCode) (strSiteFile : Bytes) : ℕ × Next :=
  let secSite := ParseSection strSiteFile true
  let strSite := sectionSingleB secSite SECTION_DOMAIN
  let strNodePublicKey := sectionSingleB secSite SECTION_PUBLIC_KEY
  let bGood := err = .success ∧ strSite = some strDomain ∧ strNodePublicKey.any env.setNodePublic
  if bGood then
    let iSha256 := env.getSHA512Half strSiteFile
    let bChangedB := i.iSha256 ≠ iSha256
    (if i.wake then 1 else 0, if bChangedB then .call (.processFile secSite) else .call .fetchFinish)
  else (0, .call .fetchFinish)

def processFile (secSite : Section) : ℕ × Next := (i.wakes, .call (.getValidatorsUrl secSite))

/-- The domain of the url that is a section's only entry. -/
def sectionUrl (secSite : Section) (strSection : Bytes) : Option (Bytes × Bytes) :=
  match sectionSingleB secSite strSection with
  | none => none
  | some strUrl => if strUrl = [] then none else httpsParseUrl strUrl

def getValidatorsUrl (secSite : Section) : ℕ × Next :=
  if (sectionUrl secSite SECTION_VALIDATORS_URL).isSome then (0, .httpsGet (.responseValidators secSite))
  else (0, .call (.getIpsUrl secSite))

def responseValidators (secSite : Section) (err : ErrorCode) : ℕ × Next :=
  (if err = .success then i.wakes else 0, .call (.getIpsUrl secSite))

def getIpsUrl (secSite : Section) : ℕ × Next :=
  if (sectionUrl secSite SECTION_IPS_URL).isSome then (0, .httpsGet .responseIps)
  else (0, .call .fetchFinish)

/-- `processIps` does not lead to `fetchNext`. -/
def responseIps (_err : ErrorCode) : ℕ × Next := (0, .call .fetchFinish)

/-- What a call of a chain does; `fetchFinish` ends the chain. -/
def Call.run : Call → Option (ℕ × Next)
  | .fetchProcess strDomain => some (Fetch.fetchProcess strDomain)
  | .responseFetch strDomain err strSiteFile => some (Fetch.responseFetch env i strDomain err strSiteFile)
  | .processFile secSite => some (Fetch.processFile i secSite)
  | .getValidatorsUrl secSite => some (Fetch.getValidatorsUrl secSite)
  | .responseValidators secSite err => some (Fetch.responseValidators i secSite err)
  | .getIpsUrl secSite => some (Fetch.getIpsUrl secSite)
  | .responseIps err => some (Fetch.responseIps err)
  | .fetchFinish => none

/-! ### Threads -/

/-- A part of a call.  Chains are numbered as they start. -/
inductive Frame
  /-- `fetchNext`, up to the end of its first section. -/
  | fetchNext
  /-- Not full: determine next scan. -/
  | fetchNextSelect
  /-- The second section, and what is decided by it. -/
  | fetchNextTake (strDomain : Bytes) (tpNext tpNow : Time)
  | chain (id : ℕ) (c : Call)

/-- What the threads share; the last two members record the chains. -/
structure Shared where
  mFetchActive : ℤ
  /-- The HTTPS requests in flight. -/
  requests : List (ℕ × Callback)
  /-- Chains started. -/
  started : ℕ
  /-- Chains for which `fetchFinish` has run, in order. -/
  finished : List ℕ

/-- The second lock section of `fetchNext` and the branches after it. -/
def fetchNextTake (strDomain : Bytes) (tpNext tpNow : Time) (s : Shared) : Shared × List Frame :=
  let bFull := strDomain ≠ [] ∧ s.mFetchActive = NODE_FETCH_JOBS
  let s := if strDomain ≠ [] ∧ ¬ bFull ∧ Time.le tpNext tpNow then
    { s with mFetchActive := s.mFetchActive + 1 } else s
  if strDomain = [] ∨ bFull then (s, [])
  else if Time.gt tpNext tpNow then (s, [])
  else ({ s with started := s.started + 1 }, [.chain s.started (.fetchProcess strDomain), .fetchNext])

/-- One frame: the shared state after it, and the calls still to make. -/
def exec (s : Shared) : Frame → Shared × List Frame
  | .fetchNext =>
    let bFull := s.mFetchActive = NODE_FETCH_JOBS
    if bFull then (s, []) else (s, [.fetchNextSelect])
  | .fetchNextSelect =>
    match i.row with
    | none => (s, [.fetchNextTake [] none none])
    | some (strDomain, tpNext, tpNow) => (s, [.fetchNextTake strDomain tpNext tpNow])
  | .fetchNextTake strDomain tpNext tpNow => fetchNextTake strDomain tpNext tpNow s
  | .chain id c =>
    match c.run env i with
    | none =>
      ({ s with mFetchActive := s.mFetchActive - 1, finished := s.finished ++ [id] }, [.fetchNext])
    | some (n, .call c') => (s, List.replicate n .fetchNext ++ [.chain id c'])
    | some (n, .httpsGet complete) =>
      ({ s with requests := s.requests ++ [(id, complete)] }, List.replicate n .fetchNext)

/-- A frame runs, whatever it reads. -/
def Exec (f : Frame) (s s' : Shared) (calls : List Frame) : Prop := ∃ i, exec env i s f = (s', calls)

/-- A thread begins: somebody calls `fetchNext` (the timer included), or a request completes. -/
inductive Begin : Shared → Shared → List Frame → Prop
  | fetchNext (s : Shared) : Begin s s [.fetchNext]
  | complete {s : Shared} {pre post : List (ℕ × Callback)} {id : ℕ} {complete : Callback}
      (h : s.requests = pre ++ (id, complete) :: post) (err : ErrorCode) (strData : Bytes) :
      Begin s { s with requests := pre ++ post } [.chain id (complete.invoke err strData)]

/-- `UniqueNodeList::UniqueNodeList`. -/
def init : Threads Shared Frame := ⟨⟨0, [], 0, []⟩, []⟩

/-- The states of the runs. -/
def Reachable (s : Threads Shared Frame) : Prop := Threads.Reachable (Exec env) Begin init s

end Newcoin.UniqueNodeList.Fetch
