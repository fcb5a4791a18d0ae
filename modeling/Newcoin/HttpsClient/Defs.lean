import Newcoin.Strings

/-!
# `HttpsClient`

A client tries the sites of a deque one after the other.  Each attempt is a chain of asynchronous
operations; the handler of one starts the next, or calls `invokeComplete`.  The error codes that the
operations and the library calls come back with, and what a site sends, are inputs: `as n` is the attempt
made while `n` sites are left.  What is sent to the site is left out.
-/

namespace Newcoin

/-- An asynchronous operation whose handler has still to run. -/
inductive Operation
  | resolve
  | connect
  | handshake
  | write
  | read
  deriving DecidableEq, Repr

/-- What the calls of one attempt come back with. -/
structure Attempt where
  verifyPaths : ErrorCode
  expires : ErrorCode
  resolve : ErrorCode
  connect : ErrorCode
  verifyCallback : ErrorCode
  handshake : ErrorCode
  write : ErrorCode
  read : ErrorCode
  /-- The bytes that arrived until then. -/
  received : Bytes
  cancel : ErrorCode
  deriving DecidableEq, Repr

structure HttpsClient where
  mDeqSites : List Bytes
  mShutdown : ErrorCode
  mResponse : Bytes
  /-- The operation in flight. -/
  pending : Option Operation
  /-- Deadline handlers that have still to run. -/
  waits : ℕ
  /-- Calls of `httpsNext`. -/
  attempted : ℕ
  /-- Calls of `invokeComplete`. -/
  invoked : ℕ
  /-- The calls of `mComplete`. -/
  completed : List (ErrorCode × Bytes)
  /-- `mDeqSites[0]` was evaluated, or `pop_front` called, on an empty deque. -/
  noSite : Bool
  deriving DecidableEq, Repr

namespace HttpsClient

/-! ### Responses -/

/-- The regular expression `reStatus`: what its group matches.  White space ends `\S+`. -/
def reStatus (strData : Bytes) : Option Bytes :=
  let http := cString "HTTP/1"
  if strData.take http.length = http then
    let version := (strData.drop http.length).takeWhile fun c => !isSpace c
    match (strData.drop http.length).dropWhile fun c => !isSpace c with
    | 32 :: d1 :: d2 :: d3 :: 32 :: _ =>
      if version ≠ [] ∧ [d1, d2, d3].all fun d => 48 ≤ d ∧ d ≤ 57 then some [d1, d2, d3] else none
    | _ => none
  else none

/-- The regular expression `reBody`: what follows the first empty line. -/
def reBody : Bytes → Option Bytes
  | [] => none
  | c :: cs => if (c :: cs).take 4 = cString "\r\n\r\n" then some ((c :: cs).drop 4) else reBody cs

/-- The test in `parseData`, and the body it finds. -/
def parseResponse (strData : Bytes) : Option Bytes :=
  match reStatus strData with
  | none => none
  | some status => if status = cString "200" then reBody strData else none

/-! ### The handlers -/

variable (as : ℕ → Attempt)

/-- `mDeqSites[0]`. -/
def site (s : HttpsClient) : HttpsClient := { s with noSite := s.noSite || s.mDeqSites.isEmpty }

/-- `httpsNext`, but for the last `if`. -/
def httpsStart (s : HttpsClient) : HttpsClient :=
  let a := as s.mDeqSites.length
  let s := s.site
  let s := { s with attempted := s.attempted + 1, mShutdown := a.verifyPaths }
  let s := if s.mShutdown = .success then { s with mShutdown := a.expires } else s
  let s := if s.mShutdown = .success then { s with waits := s.waits + 1 } else s
  if s.mShutdown = .success then { s with pending := some .resolve } else s

lemma httpsStart_mDeqSites (s : HttpsClient) : (httpsStart as s).mDeqSites = s.mDeqSites := by
  unfold httpsStart
  dsimp only
  split_ifs <;> rfl

mutual

def httpsNext (s : HttpsClient) : HttpsClient :=
  if (httpsStart as s).mShutdown = .success then httpsStart as s
  else invokeComplete (httpsStart as s).mShutdown [] (httpsStart as s)
termination_by (s.mDeqSites.length, 1)
decreasing_by
  rw [httpsStart_mDeqSites]
  exact Prod.Lex.right _ (by omega)

def invokeComplete (ecResult : ErrorCode) (strData : Bytes) (s : HttpsClient) : HttpsClient :=
  match _h : s.mDeqSites with
  | [] => { s with noSite := true }
  | _ :: sites =>
    if sites.isEmpty then
      let ecCancel := (as s.mDeqSites.length).cancel
      { s with
        mDeqSites := sites
        invoked := s.invoked + 1
        completed := s.completed ++ [(if ecResult = .success then ecCancel else ecResult, strData)] }
    else httpsNext { s with mDeqSites := sites, invoked := s.invoked + 1 }
termination_by (s.mDeqSites.length, 0)
decreasing_by
  rw [_h]
  exact Prod.Lex.left _ _ (by simp)

end

lemma invokeComplete_last {s : HttpsClient} {x : Bytes} (hx : s.mDeqSites = [x]) (ecResult : ErrorCode)
    (strData : Bytes) :
    invokeComplete as ecResult strData s = { s with
      mDeqSites := []
      invoked := s.invoked + 1
      completed := s.completed ++ [(if ecResult = .success then (as 1).cancel else ecResult, strData)] } := by
  rw [invokeComplete]
  split
  case _ h => simp [h] at hx
  case _ y sites h =>
    obtain ⟨rfl, rfl⟩ := List.cons.inj (h.symm.trans hx)
    rw [hx]
    rfl

lemma invokeComplete_next {s : HttpsClient} {x : Bytes} {rest : List Bytes} (hx : s.mDeqSites = x :: rest)
    (hrest : rest ≠ []) (ecResult : ErrorCode) (strData : Bytes) :
    invokeComplete as ecResult strData s =
      httpsNext as { s with mDeqSites := rest, invoked := s.invoked + 1 } := by
  rw [invokeComplete]
  split
  case _ h => simp [h] at hx
  case _ y sites h =>
    obtain ⟨rfl, rfl⟩ := List.cons.inj (h.symm.trans hx)
    rw [if_neg (by simpa using hrest)]

/-- `handleDeadline`, of a timer that was cancelled or has expired: any other code ends the process.
`ecShutdown` is what `mSocketSsl.shutdown` reports. -/
def handleDeadline (expired : Bool) (ecShutdown : ErrorCode) (s : HttpsClient) : HttpsClient :=
  if expired then
    let s := { s with mShutdown := .badAddress }
    if ecShutdown = .success then s else s.site
  else s

/-- `if (!mShutdown) mShutdown = ecResult;`. -/
def note (ecResult : ErrorCode) (s : HttpsClient) : HttpsClient :=
  if s.mShutdown = .success then { s with mShutdown := ecResult } else s

def handleResolve (ecResult : ErrorCode) (s : HttpsClient) : HttpsClient :=
  let s := s.note ecResult
  if s.mShutdown = .success then { s with pending := some .connect }
  else invokeComplete as s.mShutdown [] s

def handleConnect (ecResult : ErrorCode) (s : HttpsClient) : HttpsClient :=
  let a := as s.mDeqSites.length
  let s := s.note ecResult
  let s := if s.mShutdown = .success then { s.site with mShutdown := a.verifyCallback } else s
  if s.mShutdown = .success then { s with pending := some .handshake }
  else invokeComplete as s.mShutdown [] s

def handleRequest (ecResult : ErrorCode) (s : HttpsClient) : HttpsClient :=
  let s := s.note ecResult
  if s.mShutdown = .success then { s.site with pending := some .write }
  else invokeComplete as s.mShutdown [] s

def handleWrite (ecResult : ErrorCode) (s : HttpsClient) : HttpsClient :=
  let s := s.note ecResult
  if s.mShutdown = .success then { s with pending := some .read }
  else invokeComplete as s.mShutdown [] s

/-- The buffer is read to its end. -/
def parseData (s : HttpsClient) : HttpsClient :=
  match parseResponse s.mResponse with
  | some body => invokeComplete as .success body { s with mResponse := [] }
  | none => invokeComplete as .badAddress [] { s with mResponse := [] }

def handleData (ecResult : ErrorCode) (s : HttpsClient) : HttpsClient :=
  let s := s.note ecResult
  if s.mShutdown ≠ .success ∧ s.mShutdown ≠ .eof then invokeComplete as s.mShutdown [] s
  else parseData as s

/-! ### Runs -/

/-- A handler and its arguments. -/
inductive Event
  | resolved (ecResult : ErrorCode)
  | connected (ecResult : ErrorCode)
  | handshaken (ecResult : ErrorCode)
  | written (ecResult : ErrorCode)
  | received (data : Bytes) (ecResult : ErrorCode)
  | deadline (expired : Bool) (ecShutdown : ErrorCode)
  deriving DecidableEq, Repr

/-- A handler runs, if its operation is in flight. -/
def step (s : HttpsClient) : Event → Option HttpsClient
  | .resolved ec =>
    if s.pending = some .resolve then some (handleResolve as ec { s with pending := none }) else none
  | .connected ec =>
    if s.pending = some .connect then some (handleConnect as ec { s with pending := none }) else none
  | .handshaken ec =>
    if s.pending = some .handshake then some (handleRequest as ec { s with pending := none }) else none
  | .written ec =>
    if s.pending = some .write then some (handleWrite as ec { s with pending := none }) else none
  | .received data ec =>
    if s.pending = some .read then
      some (handleData as ec { s with pending := none, mResponse := s.mResponse ++ data })
    else none
  | .deadline expired ec =>
    if 0 < s.waits then some (handleDeadline expired ec { s with waits := s.waits - 1 }) else none

/-- A client before its request, and the request. -/
def httpsGet (deqSites : List Bytes) : HttpsClient :=
  httpsNext as { mDeqSites := deqSites, mShutdown := .success, mResponse := [], pending := none, waits := 0,
                 attempted := 0, invoked := 0, completed := [], noSite := false }

/-- `httpsParseUrl`: the domain and the path of a text `https://DOMAINPATH`, blanks in front allowed. -/
def httpsParseUrl (strUrl : Bytes) : Option (Bytes × Bytes) :=
  let url := strUrl.dropWhile isSpace
  let scheme := cString "https://"
  if (url.take scheme.length).map toLower = scheme then
    let strDomain := (url.drop scheme.length).takeWhile fun c => c != 47
    let strPath := (url.drop scheme.length).dropWhile fun c => c != 47
    if strDomain ≠ [] ∧ strPath ≠ [] then some (strDomain, strPath) else none
  else none

end HttpsClient

end Newcoin
