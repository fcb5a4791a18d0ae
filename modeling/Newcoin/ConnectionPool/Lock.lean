import Newcoin.ConnectionPool.Keeps
import Mathlib.Logic.Relation

/-!
# The lock of the pool

Between operations nobody holds `mPeerLock`, and every section that holds it gives it back, unless it
calls `peerConnect` for an address whose `connect` fails at once: the peer detaches under the lock, and
`peerClosed` waits for it.

* `detach_locked` — a peer that detaches under the lock.
* `keeps_run` — otherwise no operation waits for a lock it holds.
* `never_locks_itself` — what follows for the runs.
-/

namespace Newcoin.ConnectionPool.Lock

open Lib Program

variable {env : Env} {c l : ℕ} {w : World}

/-- The lock is held `l` times, and there are `c` peers or more. -/
def Level (l c : ℕ) (w : World) : Prop := w.mPeerLock = l ∧ c ≤ w.created

/-- A deadlock has a reason: a `connect` that fails at once. -/
def Excuse (env : Env) (c : ℕ) (e : Stop) : Prop :=
  e = .deadlock → ∃ n, c ≤ n ∧ env.connectFails n = true

lemma level_aside : Aside (Level l c) := ⟨fun _ _ h => h, fun _ _ h => h, fun _ _ h => h, fun _ _ h => h⟩

lemma level_scans : Scans env (Level 0 c) (Excuse env c) where
  aside := level_aside
  scanning _ h := h
  fault _ h := by cases h
  running h := by cases h
  lock _ hfree hheld := absurd hfree.1 hheld.1

/-- A section that does not lock. -/
lemma keeps_locked {α : Type} {m : M α} (hm : Keeps (Level 1 c) (Excuse env c) m) :
    Keeps (Level 0 c) (Excuse env c) (scopedLock env m) := by
  rintro w ⟨hfree, hc⟩
  rw [wp_scopedLock, if_neg (fun hheld => hheld.1 hfree)]
  refine wp_mono (hm _ ⟨by simp only [hfree], hc⟩) ?_ fun _ he => he
  rintro a t ⟨hheld, hc'⟩
  exact ⟨by simp only [hheld], hc'⟩

/-! ### Under the lock -/

lemma keeps_discover (itCm : ℕ) (pip : IpPort) :
    Keeps (Level l c) (Excuse env c) (discover itCm pip) :=
  keeps_get fun _ h => wp_ite (fun _ => h) fun _ => h

/-- **A new peer that detaches under the lock stops the thread.** -/
lemma detach_locked (hmutex : env.reentrant = false) (refresh : M PUnit) {peer : ℕ}
    (hheld : w.mPeerLock ≠ 0) (hd : (w.peers peer).mDetaching = false)
    (hkey : (w.peers peer).mNodePublic = none) (hip : (w.peers peer).mIpPort.1 ≠ []) :
    wp (detach env refresh peer) (fun _ _ => False)
      (fun e => e = if (w.peers peer).mConnectionPool then .deadlock else .nullPool) w := by
  have heffects : (w.peers peer).detach.2 = [.peerClosed (w.peers peer).mIpPort] := by
    simp [Peer.detach, hd, hkey, hip]
  rw [detach, wp_bind, wp_get, wp_bind, wp_set, heffects]
  simp only [List.forM_cons, List.forM_nil, bind_pure_unit, perform]
  cases hpool : (w.peers peer).mConnectionPool with
  | false => rfl
  | true =>
    rw [if_pos rfl, if_pos rfl, peerClosed, wp_bind]
    -- `peerClosed` comes to its locked section, whether it stops scanning or not
    have hstop : Keeps (fun v : World => v.mPeerLock ≠ 0) (fun e => e = Stop.deadlock) (stopScanning peer) :=
      keeps_get fun v hv => wp_ite (fun _ => hv) fun _ => hv
    refine wp_mono (hstop _ hheld) (fun bStopped v hv => ?_) fun _ he => he
    rw [wp_bind, eraseIp, wp_scopedLock, if_pos ⟨hv, by simp [hmutex]⟩]

/-- **So does the peer of `peerConnect`**, whose `connect` fails at once. -/
lemma detach_dialling (hmutex : env.reentrant = false) (refresh : M PUnit) {pip : IpPort} (hip : pip.1 ≠ []) :
    wp (detach env refresh w.created) (fun _ _ => False)
      (fun e => e = if env.poolPointer then .deadlock else .nullPool)
      { dialling env pip w with mPeerLock := w.mPeerLock + 1 } := by
  have hpool : ((dialling env pip w).peers w.created).mConnectionPool = env.poolPointer :=
    congrArg Peer.mConnectionPool dialling_self
  rw [← hpool]
  refine detach_locked hmutex refresh (Nat.succ_ne_zero _) ?_ ?_ ?_
  · exact congrArg Peer.mDetaching dialling_self
  · exact congrArg Peer.mNodePublic dialling_self
  · exact ne_of_eq_of_ne (congrArg (fun p => p.mIpPort.1) dialling_self) hip

/-! ### Every operation -/

section Operations

variable {refresh : M PUnit} (hmutex : env.reentrant = false)
  (hrefresh : Keeps (Level 0 c) (Excuse env c) refresh)

include hmutex in
lemma keeps_peerConnect (refresh : M PUnit) (pip : IpPort) :
    Keeps (Level 0 c) (Excuse env c) (peerConnect env refresh pip) := by
  intro w h
  refine wp_peerConnect (fun hheld => absurd h.1 hheld.1) (fun _ _ => h) (fun _ _ he => by cases he) ?_ ?_
  · intro _ hip hfails
    refine wp_mono (detach_dialling hmutex refresh hip) (fun _ _ h => h.elim) fun _ _ _ => ?_
    exact ⟨w.created, h.2, hfails⟩
  · exact fun _ _ _ => ⟨h.1, Nat.le_succ_of_le h.2⟩

lemma keeps_peerDisconnected (peer : ℕ) (naPeer : Option NewcoinAddress) :
    Keeps (Level 0 c) (Excuse env c) (peerDisconnected env peer naPeer) := by
  cases naPeer with
  | none => exact keeps_pure _
  | some naPeer =>
    refine keeps_locked (keeps_get fun w h => ?_)
    cases w.mConnectedMap.lookup naPeer with
    | none => exact h
    | some itCm => exact wp_ite (fun _ => h) fun _ => h

lemma keeps_eraseIp (peer : ℕ) (pip : IpPort) : Keeps (Level 0 c) (Excuse env c) (eraseIp env peer pip) := by
  refine keeps_locked (keeps_get fun w h => ?_)
  cases w.mIpMap.lookup pip with
  | none => exact h
  | some itIp => exact wp_ite (fun _ => h) fun _ => h

include hrefresh in
lemma keeps_peerClosed (peer : ℕ) (pip : IpPort) :
    Keeps (Level 0 c) (Excuse env c) (peerClosed env refresh peer pip) := by
  refine keeps_bind (level_scans.keeps_stopScanning peer) ?_
  intro bStopped
  refine keeps_bind (keeps_eraseIp peer pip) ?_
  intro bRedundant
  refine keeps_bind (keeps_ite (fun _ => keeps_pure _) fun _ => level_scans.keeps_peerScanSet pip) fun bDirty => ?_
  exact keeps_ite (fun _ => hrefresh) fun _ => keeps_pure _

include hrefresh in
lemma keeps_perform (peer : ℕ) (mConnectionPool : Bool) (effect : Peer.Effect) :
    Keeps (Level 0 c) (Excuse env c) (perform env refresh peer mConnectionPool effect) := by
  cases effect with
  | peerDisconnected naPeer =>
    exact keeps_ite (fun _ => keeps_peerDisconnected _ _) fun _ => keeps_throw fun h => by cases h
  | peerClosed ipPort =>
    exact keeps_ite (fun _ => keeps_peerClosed hrefresh _ _) fun _ => keeps_throw fun h => by cases h
  | _ => exact keeps_pure _

include hrefresh in
lemma keeps_detach (peer : ℕ) : Keeps (Level 0 c) (Excuse env c) (detach env refresh peer) := by
  apply keeps_get
  intro w h
  rw [wp_bind, wp_set]
  exact keeps_forM (fun effect _ => keeps_perform hrefresh peer _ effect) _ h

lemma keeps_peerConnected (peer : ℕ) (naPeer : NewcoinAddress) (pip : IpPort) :
    Keeps (Level 0 c) (Excuse env c) (peerConnected env peer naPeer pip) := by
  refine keeps_ite (fun _ => keeps_pure _) fun _ => keeps_locked (keeps_get fun w h => ?_)
  cases w.mConnectedMap.lookup naPeer with
  | none => exact h
  | some itCm => exact keeps_bind (keeps_discover itCm pip) (fun _ => keeps_pure _) w h

include hrefresh in
lemma keeps_connected (peer : ℕ) (naPeer : NewcoinAddress) :
    Keeps (Level 0 c) (Excuse env c) (connected env refresh peer naPeer) := by
  apply keeps_get
  intro w h
  rw [wp_bind, wp_set]
  refine keeps_bind (keeps_peerConnected peer naPeer _) (fun bNew => ?_) _ h
  exact keeps_ite (fun _ => keeps_bind (keeps_modify fun w h => h) fun _ => keeps_detach hrefresh peer)
    fun _ => keeps_pure _

lemma keeps_relayMessage (fromPeer : Option ℕ) (msg : Option PackedMessage) :
    Keeps (Level 0 c) (Excuse env c) (relayMessage env fromPeer msg) := by
  refine keeps_locked (keeps_get fun w h => ?_)
  exact keeps_forM (fun pair _ => keeps_get fun w h => wp_ite (fun _ => h) fun _ => h) w h

include hmutex in
/-- **The lock is given back, and not waited for without a reason.** -/
theorem keeps_run (fuel : ℕ) (op : Op) : Keeps (Level 0 c) (Excuse env c) (op.run env fuel) := by
  have hconnect : Connects env (Level 0 c) (Excuse env c) :=
    connects_of_keeps (fun _ _ h => h) (keeps_peerConnect hmutex)
  have hrefresh : Keeps (Level 0 c) (Excuse env c) (scanRefresh env fuel) :=
    level_scans.keeps_scanRefresh hconnect fuel
  cases op with
  | peerConnect pip => exact keeps_bind (hconnect.keeps _ pip) fun _ => keeps_pure _
  | peerConnected peer naPeer pip => exact keeps_bind (keeps_peerConnected _ _ _) fun _ => keeps_pure _
  | peerDisconnected peer naPeer => exact keeps_peerDisconnected _ _
  | peerClosed peer pip => exact keeps_peerClosed hrefresh _ _
  | peerVerified peer => exact level_scans.keeps_peerVerified hrefresh _
  | peerAvailable => exact keeps_bind level_scans.keeps_peerAvailable fun _ => keeps_pure _
  | policyLowWater => exact level_scans.keeps_policyLowWater hconnect _
  | scanRefresh => exact hrefresh
  | relayMessage fromPeer msg => exact keeps_relayMessage _ _
  | getPeerVector => exact keeps_bind level_scans.keeps_getPeerVector fun _ => keeps_pure _
  | savePeer pip => exact keeps_bind (level_scans.keeps_savePeer hrefresh _) fun _ => keeps_pure _
  | connectTo pip => exact level_scans.keeps_connectTo hrefresh _
  | table rows => exact keeps_modify fun w h => h
  | accept => exact fun w h => ⟨h.1, Nat.le_succ_of_le h.2⟩
  | connected peer naPeer => exact keeps_connected hrefresh _ _
  | detach peer => exact keeps_detach hrefresh _
  | other peer mHelloed mReadbuf mSendQ mSendingPacket => exact keeps_modify fun w h => h

end Operations

/-! ### Runs -/

/-- An operation returns. -/
def Step (w t : World) : Prop :=
  ∃ (env : Env) (fuel : ℕ) (op : Op), env.reentrant = false ∧ op.run env fuel w = .ok (⟨⟩, t)

def Reachable (w : World) : Prop := ∃ rows, Relation.ReflTransGen Step (World.init rows) w

lemma free_reachable (h : Reachable w) : w.mPeerLock = 0 := by
  obtain ⟨rows, hrun⟩ := h
  induction hrun with
  | refl => rfl
  | tail _ hstep ih =>
    obtain ⟨env, fuel, op, hmutex, hok⟩ := hstep
    exact (wp_ok (keeps_run hmutex fuel op _ ⟨ih, Nat.zero_le _⟩) hok).1

/-- `peerConnect` waits for its own lock exactly where it dials and the `connect` fails at once. -/
lemma peerConnect_deadlock_iff (hmutex : env.reentrant = false) (hpool : env.poolPointer = true)
    (hfree : w.mPeerLock = 0) (refresh : M PUnit) (pip : IpPort) :
    peerConnect env refresh pip w = .error .deadlock ↔
      w.mIpMap.lookup pip = none ∧ pip.1 ≠ [] ∧ env.connectFails w.created = true := by
  apply error_iff
  refine wp_peerConnect (fun hheld => absurd hfree hheld.1) ?_ ?_ ?_ ?_
  · intro itIp hlookup hdials
    rw [hlookup] at hdials
    cases hdials.1
  · intro _ hip
    refine ⟨fun heq => ?_, fun hdials => absurd hip hdials.2.1⟩
    cases heq
  · intro hlookup hip hfails
    refine wp_mono (detach_dialling hmutex refresh hip) (fun _ _ h => h.elim) fun e he => ?_
    rw [hpool, if_pos rfl] at he
    exact iff_of_true he ⟨hlookup, hip, hfails⟩
  · intro _ _ hlater hdials
    rw [hlater] at hdials
    cases hdials.2.2

/-- **The pool locks itself out only through a `connect` that fails at once**: in every reachable state
no operation waits for a lock its thread holds, unless one of the peers it creates fails so; and
`peerConnect` does wait for ever where it dials and the peer it creates fails. -/
theorem never_locks_itself (h : Reachable w) (env : Env) (hmutex : env.reentrant = false)
    (hpool : env.poolPointer = true) :
    (∀ (fuel : ℕ) (op : Op), (∀ n, w.created ≤ n → env.connectFails n = false) →
      op.run env fuel w ≠ .error .deadlock) ∧
    ∀ (refresh : M PUnit) (pip : IpPort), peerConnect env refresh pip w = .error .deadlock ↔
      w.mIpMap.lookup pip = none ∧ pip.1 ≠ [] ∧ env.connectFails w.created = true := by
  have hfree := free_reachable h
  refine ⟨?_, fun refresh pip => peerConnect_deadlock_iff hmutex hpool hfree refresh pip⟩
  intro fuel op hasync hstop
  obtain ⟨n, hn, hfails⟩ := wp_error (keeps_run hmutex fuel op w ⟨hfree, le_refl _⟩) hstop rfl
  rw [hasync n hn] at hfails
  cases hfails

/-- A first connection is dialled without harm. -/
theorem never_locks_itself_first :
    (Op.peerConnect ([49], 5)).run sampleEnv 1 (World.init []) ≠ .error .deadlock :=
  (never_locks_itself ⟨[], Relation.ReflTransGen.refl⟩ sampleEnv rfl rfl).1 1 _ fun _ _ => rfl

/-- The address of the first connection does not resolve: the thread waits for the lock it holds. -/
theorem locks_itself_unresolved :
    Reachable (World.init []) ∧
      (Op.peerConnect ([120], 5)).run { sampleEnv with connectFails := fun _ => true } 1 (World.init []) =
        .error .deadlock :=
  ⟨⟨[], Relation.ReflTransGen.refl⟩, rfl⟩

end Newcoin.ConnectionPool.Lock
