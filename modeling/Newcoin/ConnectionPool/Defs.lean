import Newcoin.ConnectionPool.PeerIps
import Newcoin.Lib.Program
import Mathlib.Data.List.AList
import Mathlib.Logic.Function.Basic

/-!
# `ConnectionPool`

The pool with its peers, its table and its lock, in one thread.  Two functions of the source call back
into the pool while `peerConnect` holds the lock: `Peer::connect`, where it fails at once, and so
`detach`.  `scanRefresh` and `policyLowWater` call themselves; they take fuel, and every function that
may call `scanRefresh` takes it as an argument, `refresh`.
-/

namespace Newcoin.ConnectionPool

open Lib

/-- Why a call does not return. -/
inductive Stop
  /-- It waits for `mPeerLock`, which it holds. -/
  | deadlock
  /-- It calls the pool through a null pointer. -/
  | nullPool
  | assertion
  | fault (fault : Fault)
  /-- Out of fuel. -/
  | running
  deriving DecidableEq, Repr

/-- What is outside the model, and what differs between the claims about it. -/
structure Env where
  /-- `mWallet->getNodePublic()`. -/
  self : NewcoinAddress
  PEER_SCAN_INTERVAL_MIN : ℤ
  PEER_CONNECT_LOW_WATER : ℕ
  /-- The readings of the clock, in order. -/
  universalTime : ℕ → ℤ
  /-- Which statements succeed, in order. -/
  executeSQL : ℕ → Bool
  /-- Whether a peer's `connect` fails at once: the address does not resolve, or the timer cannot be
  set. -/
  connectFails : ℕ → Bool
  /-- Whether `peerConnect` gives the peer it creates a pointer to this pool; the source passes null. -/
  poolPointer : Bool
  /-- Whether a thread may lock `mPeerLock` again; a `boost::mutex` may not be. -/
  reentrant : Bool

/-- The pool and its surroundings; a peer is known by its number. -/
structure World where
  peers : ℕ → Peer
  /-- How many have been created. -/
  created : ℕ
  mIpMap : AList fun _ : IpPort => ℕ
  mConnectedMap : AList fun _ : NewcoinAddress => ℕ
  mScanning : Option ℕ
  /-- When `mScanTimer` expires, if it is set. -/
  mScanTimer : Option Time
  /-- How many times `mPeerLock` is held. -/
  mPeerLock : ℕ
  rows : List PeerIp
  /-- How often the clock has been read. -/
  readings : ℕ
  /-- How many statements have been executed. -/
  statements : ℕ

abbrev M := Program World Stop

/-- Before the first call. -/
def World.init (rows : List PeerIp) : World :=
  { peers := fun _ => Peer.create true, created := 0, mIpMap := ∅, mConnectedMap := ∅, mScanning := none,
    mScanTimer := none, mPeerLock := 0, rows, readings := 0, statements := 0 }

def World.setPeer (w : World) (peer : ℕ) (p : Peer) : World :=
  { w with peers := Function.update w.peers peer p }

namespace World

variable (w : World) (peer : ℕ) (p : Peer)

@[simp] lemma setPeer_self : (w.setPeer peer p).peers peer = p := Function.update_self _ _ _

lemma setPeer_ne {q : ℕ} (h : q ≠ peer) : (w.setPeer peer p).peers q = w.peers q :=
  Function.update_of_ne h _ _

@[simp] lemma setPeer_peers : w.setPeer peer (w.peers peer) = w := by
  rw [setPeer, Function.update_eq_self]

@[simp] lemma setPeer_mPeerLock : (w.setPeer peer p).mPeerLock = w.mPeerLock := rfl

end World

variable (env : Env)

/-! ### The lock, the clock, the database -/

def lockPeers : M PUnit := do
  let w ← get
  if w.mPeerLock ≠ 0 ∧ ¬ env.reentrant then throw .deadlock
  else set { w with mPeerLock := w.mPeerLock + 1 }

def unlockPeers : M PUnit := modify fun w => { w with mPeerLock := w.mPeerLock - 1 }

/-- `scoped_lock sl(mPeerLock)` over a section. -/
def scopedLock {α : Type} (m : M α) : M α := do
  lockPeers env
  let a ← m
  unlockPeers
  return a

def universalTime : M ℤ := do
  let w ← get
  set { w with readings := w.readings + 1 }
  return env.universalTime w.readings

def executeSQL : M Bool := do
  let w ← get
  set { w with statements := w.statements + 1 }
  return env.executeSQL w.statements

/-- An `UPDATE`, whose result nobody checks. -/
def updateRows (f : List PeerIp → List PeerIp) : M PUnit := do
  if ← executeSQL env then modify fun w => { w with rows := f w.rows }

def liftFault {α : Type} : Except Fault α → M α
  | .ok a => pure a
  | .error fault => throw (.fault fault)

section Rules

open Program

variable {α : Type} {E : Stop → Prop} (w : World)

@[simp] lemma wp_scopedLock (m : M α) (Q : α → World → Prop) :
    wp (scopedLock env m) Q E w =
      if w.mPeerLock ≠ 0 ∧ ¬ env.reentrant then E .deadlock
      else wp m (fun a t => Q a { t with mPeerLock := t.mPeerLock - 1 }) E
        { w with mPeerLock := w.mPeerLock + 1 } := by
  simp only [scopedLock, lockPeers, unlockPeers, wp_bind, wp_get]
  split_ifs
  · rfl
  · simp only [wp_set, wp_modify, wp_pure]

lemma wp_locked {m : M α} {Q : α → World → Prop} (hE : E .deadlock)
    (h : wp m (fun a t => Q a { t with mPeerLock := t.mPeerLock - 1 }) E
      { w with mPeerLock := w.mPeerLock + 1 }) : wp (scopedLock env m) Q E w := by
  rw [wp_scopedLock]
  by_cases hheld : w.mPeerLock ≠ 0 ∧ ¬ env.reentrant
  · rw [if_pos hheld]
    exact hE
  · rw [if_neg hheld]
    exact h

@[simp] lemma wp_executeSQL (Q : Bool → World → Prop) :
    wp (executeSQL env) Q E w =
      Q (env.executeSQL w.statements) { w with statements := w.statements + 1 } := rfl

@[simp] lemma wp_universalTime (Q : ℤ → World → Prop) :
    wp (universalTime env) Q E w = Q (env.universalTime w.readings) { w with readings := w.readings + 1 } := rfl

@[simp] lemma wp_updateRows (f : List PeerIp → List PeerIp) (Q : PUnit → World → Prop) :
    wp (updateRows env f) Q E w =
      if env.executeSQL w.statements then
        Q ⟨⟩ { w with statements := w.statements + 1, rows := f w.rows }
      else Q ⟨⟩ { w with statements := w.statements + 1 } := by
  simp only [updateRows, wp_bind, wp_executeSQL]
  split_ifs <;> rfl

/-- Invariants that the counters, the table and the timer have no part in. -/
structure Aside (I : World → Prop) : Prop where
  readings : ∀ w n, I w → I { w with readings := n }
  statements : ∀ w n, I w → I { w with statements := n }
  rows : ∀ w rows, I w → I { w with rows }
  scanTimer : ∀ w mScanTimer, I w → I { w with mScanTimer }

variable {I : World → Prop} {env}

lemma keeps_scopedLock (h : ∀ w n, I w → I { w with mPeerLock := n }) (hE : E .deadlock) {m : M α}
    (hm : Keeps I E m) : Keeps I E (scopedLock env m) := by
  intro w hw
  exact wp_locked env w hE (wp_mono (hm _ (h _ _ hw)) (fun _ t ht => h t _ ht) fun _ he => he)

lemma keeps_universalTime (h : Aside I) : Keeps I E (universalTime env) := fun w hw => h.readings w _ hw

lemma keeps_executeSQL (h : Aside I) : Keeps I E (executeSQL env) := fun w hw => h.statements w _ hw

lemma keeps_updateRows (h : Aside I) (f : List PeerIp → List PeerIp) : Keeps I E (updateRows env f) := by
  intro w hw
  rw [wp_updateRows]
  split_ifs
  · exact h.rows _ (f w.rows) (h.statements w (w.statements + 1) hw)
  · exact h.statements w _ hw

lemma keeps_liftFault (hE : ∀ fault, E (.fault fault)) (r : Except Fault α) : Keeps I E (liftFault r) := by
  cases r with
  | ok a => exact keeps_pure a
  | error fault => exact keeps_throw (hE fault)

end Rules

/-! ### What a peer that ends calls -/

/-- `peerDisconnected`, with a key that may be invalid. -/
def peerDisconnected (peer : ℕ) (naPeer : Option NewcoinAddress) : M PUnit :=
  match naPeer with
  | none => pure ()
  | some naPeer => scopedLock env do
    let w ← get
    match w.mConnectedMap.lookup naPeer with
    | none => pure ()
    | some itCm =>
      if itCm ≠ peer then pure ()
      else set { w with mConnectedMap := w.mConnectedMap.erase naPeer }

/-- `ptFromSeconds`. -/
def ptFromSeconds (iSeconds : ℤ) : Time := if iSeconds < 0 then none else some iSeconds

/-- `peerScanSet`. -/
def peerScanSet (pip : IpPort) : M Bool := do
  let strIpPort := ipPortText pip
  if ← executeSQL env then
    let w ← get
    match w.rows.find? fun row => row.IpPort = strIpPort with
    | none => return false
    | some row =>
      if row.ScanNext.isNone then
        let iInterval := env.PEER_SCAN_INTERVAL_MIN
        let tpNow ← universalTime env
        updateRows env (updateScan (some (tpNow + iInterval)) iInterval strIpPort)
        return true
      else return false
  else return false

/-- The locked section of `peerClosed`: whether the peer was redundant. -/
def eraseIp (peer : ℕ) (ipPeer : IpPort) : M Bool := scopedLock env do
  let w ← get
  match w.mIpMap.lookup ipPeer with
  | none => return true
  | some itIp =>
    if itIp = peer then
      set { w with mIpMap := w.mIpMap.erase ipPeer }
      return false
    else return true

/-- `peerClosed` from where it stops scanning: whether to look for more to scan. -/
def stopScanning (peer : ℕ) : M Bool := do
  let w ← get
  if w.mScanning = some peer then
    set { w with mScanning := none }
    return true
  else return false

/-- `peerClosed`. -/
def peerClosed (refresh : M PUnit) (peer : ℕ) (ipPeer : IpPort) : M PUnit := do
  let bStopped ← stopScanning peer
  let bRedundant ← eraseIp env peer ipPeer
  let bDirty ← (if bRedundant then pure false else peerScanSet env ipPeer : M Bool)
  if bDirty || bStopped then refresh

/-- What a call on a peer asks of the pool; asynchronous operations only start. -/
def perform (refresh : M PUnit) (peer : ℕ) (mConnectionPool : Bool) : Peer.Effect → M PUnit
  | .peerDisconnected naPeer =>
    if mConnectionPool then peerDisconnected env peer (some naPeer) else throw .nullPool
  | .peerClosed ipPort =>
    if mConnectionPool then peerClosed env refresh peer ipPort else throw .nullPool
  | _ => pure ()

/-- `Peer::detach`. -/
def detach (refresh : M PUnit) (peer : ℕ) : M PUnit := do
  let w ← get
  let p := w.peers peer
  set (w.setPeer peer p.detach.1)
  forM p.detach.2 (perform env refresh peer p.mConnectionPool)

/-! ### Connecting -/

/-- `Peer::create`. -/
def createPeer (mConnectionPool : Bool) : M ℕ := do
  let w ← get
  set { w.setPeer w.created (Peer.create mConnectionPool) with created := w.created + 1 }
  return w.created

/-- `setIpPort`. -/
def setIpPort (peer : ℕ) (pip : IpPort) : M PUnit :=
  modify fun w => w.setPeer peer { w.peers peer with mIpPort := pip }

/-- `Peer::connect`. -/
def connect (refresh : M PUnit) (peer : ℕ) (pip : IpPort) : M PUnit := do
  setIpPort peer pip
  if pip.1 = [] then throw .assertion
  if env.connectFails peer then detach env refresh peer

/-- `peerConnect`. -/
def peerConnect (refresh : M PUnit) (pip : IpPort) : M (Option ℕ) := scopedLock env do
  let w ← get
  match w.mIpMap.lookup pip with
  | none =>
    let ppNew ← createPeer env.poolPointer
    connect env refresh ppNew pip
    modify fun w => { w with mIpMap := w.mIpMap.insert pip ppNew }
    return some ppNew
  | some _ => return none

/-- `scanRefresh`. -/
def scanRefresh : ℕ → M PUnit
  | 0 => throw .running
  | n + 1 => do
    let w ← get
    if w.mScanning.isSome then pure ()
    else
      let bFound ← executeSQL env
      match if bFound then selectScan w.rows else none with
      | none => modify fun w => { w with mScanTimer := none }
      | some row =>
        let tpNow ← universalTime env
        let tpNext := ptFromSeconds (row.ScanNext.getD 0)
        if tpNext.le (some tpNow) then
          let pip ← liftFault (splitIpPort row.IpPort)
          modify fun w => { w with mScanTimer := none }
          let iInterval := max row.ScanInterval env.PEER_SCAN_INTERVAL_MIN
          updateRows env (updateScan (some (tpNow + iInterval)) (iInterval * 2) row.IpPort)
          let mScanning ← peerConnect env (scanRefresh n) pip
          modify fun w => { w with mScanning }
          if mScanning.isNone then scanRefresh n
        else modify fun w => { w with mScanTimer := some tpNext }

/-! ### Peers that say who they are -/

/-- The database section of `peerVerified`, left out where the peer is this node. -/
def unschedule (p : Peer) : M PUnit :=
  if p.mNodePublic = some env.self then pure ()
  else updateRows env (updateScan none 0 (ipPortText p.mIpPort))

/-- `peerVerified`. -/
def peerVerified (refresh : M PUnit) (peer : ℕ) : M PUnit := do
  let w ← get
  if w.mScanning = some peer then
    unschedule env (w.peers peer)
    modify fun w => { w with mScanning := none }
    refresh

/-- What `peerConnected` does where the key is known: the peer that has it learns its address. -/
def discover (itCm : ℕ) (pip : IpPort) : M PUnit := do
  let w ← get
  if pip.1 ≠ [] ∧ (w.peers itCm).mIpPort.1 = [] then
    setIpPort itCm pip
    modify fun w => { w with mIpMap := w.mIpMap.insert pip itCm }

/-- `peerConnected`. -/
def peerConnected (peer : ℕ) (naPeer : NewcoinAddress) (pip : IpPort) : M Bool :=
  if naPeer = env.self then pure false
  else scopedLock env do
    let w ← get
    match w.mConnectedMap.lookup naPeer with
    | none =>
      set { w with mConnectedMap := w.mConnectedMap.insert naPeer peer }
      return true
    | some itCm =>
      discover itCm pip
      return false

/-- A peer that learns its key calls `peerConnected` with it, and with its own address; it ends where
that is false. -/
def connected (refresh : M PUnit) (peer : ℕ) (naPeer : NewcoinAddress) : M PUnit := do
  let w ← get
  set (w.setPeer peer { w.peers peer with mNodePublic := some naPeer })
  let bNew ← peerConnected env peer naPeer (w.peers peer).mIpPort
  if ¬ bNew then
    modify fun w => w.setPeer peer { w.peers peer with mNodePublic := none }
    detach env refresh peer

/-! ### The policy and the rest -/

/-- `peerAvailable`. -/
def peerAvailable : M (Option IpPort) := do
  let vstrIpPort ← scopedLock env do
    let w ← get
    return w.mIpMap.keys.map ipPortText
  let bFound ← executeSQL env
  let w ← get
  match if bFound then selectAvailable vstrIpPort w.rows else none with
  | none => return none
  | some row =>
    if row.IpPort = [] then return none
    else
      let pip ← liftFault (splitIpPort row.IpPort)
      return some pip

/-- `policyLowWater`. -/
def policyLowWater (refresh : M PUnit) : ℕ → M PUnit
  | 0 => throw .running
  | n + 1 => do
    let w ← get
    if w.mConnectedMap.keys.length > env.PEER_CONNECT_LOW_WATER then pure ()
    else
      match ← peerAvailable env with
      | none => pure ()
      | some pip =>
        let _ ← peerConnect env refresh pip
        policyLowWater refresh n

/-- `relayMessage`. -/
def relayMessage (fromPeer : Option ℕ) (msg : Option PackedMessage) : M PUnit := scopedLock env do
  let w ← get
  forM w.mConnectedMap.entries fun pair => do
    let w ← get
    let p := w.peers pair.2
    if fromPeer ≠ some pair.2 ∧ p.mHelloed ∧ ¬ p.mDetaching then
      set (w.setPeer pair.2 (p.sendPacket msg).1)

/-- `getPeerVector`. -/
def getPeerVector : M (List ℕ) := scopedLock env do
  let w ← get
  return w.mConnectedMap.entries.map fun pair => pair.2

/-- `savePeer`. -/
def savePeer (refresh : M PUnit) (pip : IpPort) : M Bool := do
  if ← executeSQL env then
    let w ← get
    let r := insertNew (ipPortText pip) w.rows
    if r.2 then
      updateRows env fun rows => (insertNew (ipPortText pip) rows).1
      refresh
      return true
    else return false
  else return false

/-- `connectTo`. -/
def connectTo (refresh : M PUnit) (pip : IpPort) : M PUnit := do
  updateRows env (replaceNow (ipPortText pip))
  refresh

/-! ### Operations -/

/-- What the pool is called for, and what happens to its peers. -/
inductive Op
  | peerConnect (pip : IpPort)
  | peerConnected (peer : ℕ) (naPeer : NewcoinAddress) (pip : IpPort)
  | peerDisconnected (peer : ℕ) (naPeer : Option NewcoinAddress)
  | peerClosed (peer : ℕ) (pip : IpPort)
  | peerVerified (peer : ℕ)
  | peerAvailable
  | policyLowWater
  | scanRefresh
  | relayMessage (fromPeer : Option ℕ) (msg : Option PackedMessage)
  | getPeerVector
  | savePeer (pip : IpPort)
  | connectTo (pip : IpPort)
  /-- Others write the table. -/
  | table (rows : List PeerIp)
  /-- An inbound connection. -/
  | accept
  | connected (peer : ℕ) (naPeer : NewcoinAddress)
  | detach (peer : ℕ)
  /-- The members of a peer change that the pool has no part in. -/
  | other (peer : ℕ) (mHelloed : Bool) (mReadbuf : Bytes) (mSendQ : List PackedMessage)
      (mSendingPacket : Option PackedMessage)

/-- An operation, within `fuel` calls of `scanRefresh` and `policyLowWater` each. -/
def Op.run (fuel : ℕ) : Op → M PUnit
  | .peerConnect pip => do let _ ← ConnectionPool.peerConnect env (ConnectionPool.scanRefresh env fuel) pip
  | .peerConnected peer naPeer pip => do let _ ← ConnectionPool.peerConnected env peer naPeer pip
  | .peerDisconnected peer naPeer => ConnectionPool.peerDisconnected env peer naPeer
  | .peerClosed peer pip => ConnectionPool.peerClosed env (ConnectionPool.scanRefresh env fuel) peer pip
  | .peerVerified peer => ConnectionPool.peerVerified env (ConnectionPool.scanRefresh env fuel) peer
  | .peerAvailable => do let _ ← ConnectionPool.peerAvailable env
  | .policyLowWater => ConnectionPool.policyLowWater env (ConnectionPool.scanRefresh env fuel) fuel
  | .scanRefresh => ConnectionPool.scanRefresh env fuel
  | .relayMessage fromPeer msg => ConnectionPool.relayMessage env fromPeer msg
  | .getPeerVector => do let _ ← ConnectionPool.getPeerVector env
  | .savePeer pip => do let _ ← ConnectionPool.savePeer env (ConnectionPool.scanRefresh env fuel) pip
  | .connectTo pip => ConnectionPool.connectTo env (ConnectionPool.scanRefresh env fuel) pip
  | .table rows => modify fun w => { w with rows }
  | .accept => do let _ ← createPeer true
  | .connected peer naPeer => ConnectionPool.connected env (ConnectionPool.scanRefresh env fuel) peer naPeer
  | .detach peer => ConnectionPool.detach env (ConnectionPool.scanRefresh env fuel) peer
  | .other peer mHelloed mReadbuf mSendQ mSendingPacket => modify fun w =>
    w.setPeer peer { w.peers peer with mHelloed, mReadbuf, mSendQ, mSendingPacket }

/-- Surroundings in which all goes well, of a node whose key is `[0]`. -/
def sampleEnv : Env :=
  { self := ⟨28, [0]⟩, PEER_SCAN_INTERVAL_MIN := 60, PEER_CONNECT_LOW_WATER := 4,
    universalTime := fun _ => 0, executeSQL := fun _ => true, connectFails := fun _ => false,
    poolPointer := true, reentrant := false }

end Newcoin.ConnectionPool
