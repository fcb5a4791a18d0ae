import Newcoin.ConnectionPool.Defs

/-!
# What keeps an invariant of the pool

Scanning, the policy and the table touch the maps, the peers and the lock through `peerConnect` only, and
through sections that read.  An invariant in which the rest of the world has no part (`Scans`) is kept by
them as soon as `peerConnect` keeps it, and keeps it once more when what it returns is scanned
(`Connects`).  If the maps have no part in it either (`Peerwise`), what is left to show is that it is kept
where a peer is created and where one ends (`keeps_run`).
-/

namespace Newcoin.ConnectionPool

open Lib Program

/-- Invariants that the clock, the table and the timer have no part in, and that allow to scan nobody;
whoever waits for the lock while one holds stops as `E` says. -/
structure Scans (env : Env) (I : World → Prop) (E : Stop → Prop) : Prop where
  aside : Aside I
  scanning : ∀ w, I w → I { w with mScanning := none }
  fault : ∀ fault, E (.fault fault)
  running : E .running
  lock : ∀ w, I w → w.mPeerLock ≠ 0 ∧ ¬ env.reentrant → E .deadlock

/-! ### Connecting -/

/-- Peers may be new, the others and `mScanning` are as they were. -/
structure Grows (w t : World) : Prop where
  created : w.created ≤ t.created
  peers : ∀ p, p < w.created → t.peers p = w.peers p
  scanning : t.mScanning = w.mScanning

section PeerConnect

variable {env : Env} {refresh : M PUnit} {pip : IpPort} {w : World}

/-- The pool with a new peer that connects to an address. -/
def dialling (env : Env) (pip : IpPort) (w : World) : World :=
  { w.setPeer w.created { Peer.create env.poolPointer with mIpPort := pip } with created := w.created + 1 }

/-- The peer has been entered. -/
def dial (env : Env) (pip : IpPort) (w : World) : World :=
  { dialling env pip w with mIpMap := w.mIpMap.insert pip w.created }

lemma dialling_self : (dialling env pip w).peers w.created = { Peer.create env.poolPointer with mIpPort := pip } :=
  World.setPeer_self _ _ _

lemma dialling_of_lt {p : ℕ} (hp : p < w.created) : (dialling env pip w).peers p = w.peers p :=
  World.setPeer_ne _ _ _ hp.ne

/-- **`peerConnect`**, by what it finds and what becomes of the `connect`. -/
lemma wp_peerConnect {Q : Option ℕ → World → Prop} {E : Stop → Prop}
    (hheld : w.mPeerLock ≠ 0 ∧ ¬ env.reentrant → E .deadlock)
    (hknown : ∀ itIp, w.mIpMap.lookup pip = some itIp → Q none w)
    (hempty : w.mIpMap.lookup pip = none → pip.1 = [] → E .assertion)
    (hfails : w.mIpMap.lookup pip = none → pip.1 ≠ [] → env.connectFails w.created = true →
      wp (detach env refresh w.created)
        (fun _ t => Q (some w.created)
          { t with mIpMap := t.mIpMap.insert pip w.created, mPeerLock := t.mPeerLock - 1 })
        E { dialling env pip w with mPeerLock := w.mPeerLock + 1 })
    (hdials : w.mIpMap.lookup pip = none → pip.1 ≠ [] → env.connectFails w.created = false →
      Q (some w.created) (dial env pip w)) :
    wp (peerConnect env refresh pip) Q E w := by
  rw [peerConnect, wp_scopedLock]
  split_ifs with hlock
  · exact hheld hlock
  rw [wp_bind, wp_get]
  dsimp only
  cases hlookup : w.mIpMap.lookup pip with
  | some itIp => exact hknown itIp hlookup
  | none =>
    simp only [createPeer, connect, setIpPort, wp_bind, wp_get, wp_set, wp_modify, wp_pure, World.setPeer,
      Function.update_self, Function.update_idem]
    refine wp_ite (fun hip => hempty hlookup hip) fun hip => wp_ite (fun hfail => ?_) fun hlater => ?_
    · exact hfails hlookup hip hfail
    · exact hdials hlookup hip (Bool.not_eq_true _ ▸ hlater)

end PeerConnect

/-- Where the `connect` does not fail at once, `peerConnect` returns a new peer that has the address and
an entry under it, or null. -/
lemma peerConnect_spec {env : Env} {w : World} (hasync : env.connectFails w.created = false)
    (refresh : M PUnit) (pip : IpPort) :
    wp (peerConnect env refresh pip)
      (fun ppResult t => Grows w t ∧
        (∀ a p, t.mIpMap.lookup a = some p → w.mIpMap.lookup a = some p ∨ ppResult = some p) ∧
        ∀ n, ppResult = some n →
          n < t.created ∧ (t.peers n).mDetaching = false ∧ (t.peers n).mIpPort = pip ∧ pip.1 ≠ [])
      (fun _ => True) w := by
  refine wp_peerConnect (fun _ => trivial) ?_ (fun _ _ => trivial) ?_ ?_
  · exact fun _ _ => ⟨⟨le_rfl, fun _ _ => rfl, rfl⟩, fun _ _ hp => Or.inl hp, nofun⟩
  · intro _ _ hfails
    rw [hasync] at hfails
    cases hfails
  · refine fun _ hne _ => ⟨⟨Nat.le_succ _, fun p hp => dialling_of_lt hp, rfl⟩, ?_, ?_⟩
    · intro a p hp
      by_cases ha : a = pip
      · subst ha
        exact Or.inr ((AList.lookup_insert _).symm.trans hp)
      · exact Or.inl ((AList.lookup_insert_ne ha).symm.trans hp)
    · intro n hn
      obtain rfl := Option.some.inj hn
      exact ⟨Nat.lt_succ_self _, congrArg Peer.mDetaching dialling_self, congrArg Peer.mIpPort dialling_self, hne⟩

/-- `peerConnect` keeps the invariant, and so does scanning what it returns. -/
def Connects (env : Env) (I : World → Prop) (E : Stop → Prop) : Prop :=
  ∀ (refresh : M PUnit) (pip : IpPort) (w : World), I w →
    wp (peerConnect env refresh pip) (fun mScanning t => I t ∧ I { t with mScanning }) E w

section Connects

variable {env : Env} {I : World → Prop} {E : Stop → Prop}

lemma Connects.keeps (h : Connects env I E) (refresh : M PUnit) (pip : IpPort) :
    Keeps I E (peerConnect env refresh pip) := by
  intro w hw
  exact wp_mono (h refresh pip w hw) (fun _ _ ht => ht.1) fun _ he => he

/-- It does not matter who is scanned. -/
lemma connects_of_keeps (hscan : ∀ w mScanning, I w → I { w with mScanning })
    (h : ∀ (refresh : M PUnit) (pip : IpPort), Keeps I E (peerConnect env refresh pip)) :
    Connects env I E := by
  intro refresh pip w hw
  exact wp_mono (h refresh pip w hw) (fun mScanning t ht => ⟨ht, hscan t mScanning ht⟩) fun _ he => he

end Connects

/-- `detach` of a peer that has not detached calls the pool about its key, then about its address; of another
peer it does nothing. -/
lemma keeps_detach_of_live {env : Env} {I : World → Prop} {E : Stop → Prop} {refresh : M PUnit} {peer : ℕ}
    (hlive : ∀ w, I w → (w.peers peer).mDetaching = false →
      wp (forM ((w.peers peer).mNodePublic.toList.map Peer.Effect.peerDisconnected)
          (perform env refresh peer (w.peers peer).mConnectionPool))
        (fun _ => wp (forM (if (w.peers peer).mIpPort.1 ≠ [] then [.peerClosed (w.peers peer).mIpPort] else [])
          (perform env refresh peer (w.peers peer).mConnectionPool)) (fun _ => I) E)
        E (w.setPeer peer (w.peers peer).detach.1)) :
    Keeps I E (detach env refresh peer) := by
  apply keeps_get
  intro w h
  rw [wp_bind, wp_set]
  by_cases hd : (w.peers peer).mDetaching = true
  · rw [Peer.detach, if_pos hd, World.setPeer_peers]
    exact h
  rw [Bool.not_eq_true] at hd
  rw [Peer.detach_of_live hd, List.forM_append, wp_bind]
  exact hlive w h hd

namespace Scans

variable {env : Env} {I : World → Prop} {E : Stop → Prop} {refresh : M PUnit} (h : Scans env I E)
  (hconnect : Connects env I E) (hrefresh : Keeps I E refresh)

include h

/-- A section that only reads. -/
lemma keeps_read {α : Type} (f : World → α) : Keeps I E (scopedLock env do let w ← get; return f w) := by
  intro w hw
  rw [wp_scopedLock]
  split_ifs with hheld
  · exact h.lock w hw hheld
  · exact hw

lemma keeps_setScanning : Keeps I E (modify fun w : World => { w with mScanning := none }) :=
  keeps_modify fun w hw => h.scanning w hw

lemma keeps_setScanTimer (mScanTimer : Option Time) :
    Keeps I E (modify fun w : World => { w with mScanTimer }) :=
  keeps_modify fun w hw => h.aside.scanTimer w mScanTimer hw

lemma keeps_stopScanning (peer : ℕ) : Keeps I E (stopScanning peer) := by
  refine keeps_get fun w hw => wp_ite (fun _ => ?_) fun _ => hw
  exact h.scanning w hw

lemma keeps_peerScanSet (pip : IpPort) : Keeps I E (peerScanSet env pip) := by
  refine keeps_bind (keeps_executeSQL h.aside) fun bFound => keeps_ite (fun _ => ?_) fun _ => keeps_pure _
  apply keeps_get
  intro w hw
  split
  · exact hw
  · refine keeps_ite (fun _ => ?_) (fun _ => keeps_pure _) w hw
    refine keeps_bind (keeps_universalTime h.aside) ?_
    intro tpNow
    exact keeps_bind (keeps_updateRows h.aside _) fun _ => keeps_pure _

include hconnect in
lemma keeps_scanRefresh (fuel : ℕ) : Keeps I E (scanRefresh env fuel) := by
  induction fuel with
  | zero => exact keeps_throw h.running
  | succ fuel ih =>
    refine keeps_get fun w hw => wp_ite (fun _ => hw) fun _ => ?_
    refine keeps_bind (keeps_executeSQL h.aside) (fun bFound => ?_) w hw
    split
    · exact h.keeps_setScanTimer none
    · refine keeps_bind (keeps_universalTime h.aside) ?_
      intro tpNow
      refine keeps_ite (fun _ => ?_) fun _ => h.keeps_setScanTimer _
      refine keeps_bind (keeps_liftFault h.fault _) ?_
      intro pip
      refine keeps_bind (h.keeps_setScanTimer none) ?_
      intro _
      refine keeps_bind (keeps_updateRows h.aside _) ?_
      intro _ w hw
      rw [wp_bind]
      refine wp_mono (hconnect _ pip w hw) ?_ fun _ he => he
      rintro mScanning t ⟨_, ht⟩
      rw [wp_bind, wp_modify]
      exact keeps_ite (fun _ => ih) (fun _ => keeps_pure _) _ ht

include hrefresh in
lemma keeps_peerVerified (peer : ℕ) : Keeps I E (peerVerified env refresh peer) := by
  refine keeps_get fun w hw => wp_ite (fun _ => ?_) fun _ => hw
  have hrows : Keeps I E (unschedule env (w.peers peer)) :=
    keeps_ite (fun _ => keeps_pure _) fun _ => keeps_updateRows h.aside _
  exact keeps_bind hrows (fun _ => keeps_bind h.keeps_setScanning fun _ => hrefresh) w hw

lemma keeps_peerAvailable : Keeps I E (peerAvailable env) := by
  refine keeps_bind (h.keeps_read _) ?_
  intro vstrIpPort
  refine keeps_bind (keeps_executeSQL h.aside) fun bFound => keeps_get fun w hw => ?_
  split
  · exact hw
  · refine wp_ite (fun _ => hw) fun _ => ?_
    exact keeps_bind (keeps_liftFault h.fault _) (fun _ => keeps_pure _) w hw

include hconnect in
lemma keeps_policyLowWater (fuel : ℕ) : Keeps I E (policyLowWater env refresh fuel) := by
  induction fuel with
  | zero => exact keeps_throw h.running
  | succ fuel ih =>
    refine keeps_get fun w hw => wp_ite (fun _ => hw) fun _ => ?_
    refine keeps_bind h.keeps_peerAvailable (fun pip => ?_) w hw
    split
    · exact keeps_pure _
    · exact keeps_bind (hconnect.keeps _ _) fun _ => ih

lemma keeps_getPeerVector : Keeps I E (getPeerVector env) := h.keeps_read _

include hrefresh in
lemma keeps_savePeer (pip : IpPort) : Keeps I E (savePeer env refresh pip) := by
  refine keeps_bind (keeps_executeSQL h.aside) fun bFound => keeps_ite (fun _ => ?_) fun _ => keeps_pure _
  refine keeps_get fun w hw => keeps_ite (fun _ => ?_) (fun _ => keeps_pure _) w hw
  exact keeps_bind (keeps_updateRows h.aside _) fun _ => keeps_bind hrefresh fun _ => keeps_pure _

include hrefresh in
lemma keeps_connectTo (pip : IpPort) : Keeps I E (connectTo env refresh pip) :=
  keeps_bind (keeps_updateRows h.aside _) fun _ => hrefresh

end Scans

/-! ### Invariants of the peers -/

/-- The maps and the lock have no part in the invariant, nor has anything of a peer but its pointer to the
pool, whether it is detaching, and its address; and a peer may learn its address. -/
structure Peerwise (env : Env) (I : World → Prop) (E : Stop → Prop) : Prop extends Scans env I E where
  deadlock : E .deadlock
  nullPool : E .nullPool
  mutex : ∀ w n, I w → I { w with mPeerLock := n }
  ips : ∀ w mIpMap, I w → I { w with mIpMap }
  keys : ∀ w mConnectedMap, I w → I { w with mConnectedMap }
  frame : ∀ w peer p, I w → p.mConnectionPool = (w.peers peer).mConnectionPool →
    p.mDetaching = (w.peers peer).mDetaching → p.mIpPort = (w.peers peer).mIpPort → I (w.setPeer peer p)
  discover : ∀ w peer pip, I w → pip.1 ≠ [] → I (w.setPeer peer { w.peers peer with mIpPort := pip })

namespace Peerwise

variable {env : Env} {I : World → Prop} {E : Stop → Prop} {refresh : M PUnit} (h : Peerwise env I E)

include h

lemma keeps_peerDisconnected (peer : ℕ) (naPeer : Option NewcoinAddress) :
    Keeps I E (peerDisconnected env peer naPeer) := by
  cases naPeer with
  | none => exact keeps_pure _
  | some naPeer =>
    refine keeps_scopedLock h.mutex h.deadlock (keeps_get fun w hw => ?_)
    cases w.mConnectedMap.lookup naPeer with
    | none => exact hw
    | some itCm => exact wp_ite (fun _ => hw) fun _ => h.keys _ _ hw

lemma keeps_eraseIp (peer : ℕ) (pip : IpPort) : Keeps I E (eraseIp env peer pip) := by
  refine keeps_scopedLock h.mutex h.deadlock (keeps_get fun w hw => ?_)
  cases w.mIpMap.lookup pip with
  | none => exact hw
  | some itIp => exact wp_ite (fun _ => h.ips _ _ hw) fun _ => hw

/-- What a peer that ends does once it is no longer scanned. -/
lemma keeps_closed (hrefresh : Keeps I E refresh) (peer : ℕ) (pip : IpPort) (bStopped : Bool) :
    Keeps I E (do
      let bRedundant ← eraseIp env peer pip
      let bDirty ← (if bRedundant then pure false else peerScanSet env pip : M Bool)
      if bDirty || bStopped then refresh) := by
  refine keeps_bind (h.keeps_eraseIp peer pip) ?_
  intro bRedundant
  refine keeps_bind (keeps_ite (fun _ => keeps_pure _) fun _ => h.keeps_peerScanSet _) ?_
  intro bDirty
  exact keeps_ite (fun _ => hrefresh) fun _ => keeps_pure _

lemma keeps_peerClosed (hrefresh : Keeps I E refresh) (peer : ℕ) (pip : IpPort) :
    Keeps I E (peerClosed env refresh peer pip) :=
  keeps_bind (h.keeps_stopScanning peer) fun bStopped => h.keeps_closed hrefresh peer pip bStopped

lemma keeps_perform (hrefresh : Keeps I E refresh) (peer : ℕ) (mConnectionPool : Bool) (effect : Peer.Effect) :
    Keeps I E (perform env refresh peer mConnectionPool effect) := by
  cases effect with
  | peerDisconnected naPeer =>
    exact keeps_ite (fun _ => h.keeps_peerDisconnected _ _) fun _ => keeps_throw h.nullPool
  | peerClosed ipPort => exact keeps_ite (fun _ => h.keeps_peerClosed hrefresh _ _) fun _ => keeps_throw h.nullPool
  | _ => exact keeps_pure _

/-- What a peer that ends calls first. -/
lemma keeps_forgets (peer : ℕ) (mConnectionPool : Bool) (key : Option NewcoinAddress) :
    Keeps I E (forM (key.toList.map Peer.Effect.peerDisconnected)
      (perform env refresh peer mConnectionPool)) := by
  apply keeps_forM
  intro effect heffect
  obtain ⟨naPeer, _, rfl⟩ := List.mem_map.mp heffect
  exact keeps_ite (fun _ => h.keeps_peerDisconnected _ _) fun _ => keeps_throw h.nullPool

lemma keeps_peerConnected (peer : ℕ) (naPeer : NewcoinAddress) (pip : IpPort) :
    Keeps I E (peerConnected env peer naPeer pip) := by
  refine keeps_ite (fun _ => keeps_pure _) fun _ => ?_
  refine keeps_scopedLock h.mutex h.deadlock (keeps_get fun w hw => ?_)
  cases w.mConnectedMap.lookup naPeer with
  | none => exact h.keys _ _ hw
  | some itCm =>
    refine keeps_bind (keeps_get fun w hw => ?_) (fun _ => keeps_pure _) w hw
    exact wp_ite (fun hip => h.ips _ _ (h.discover w itCm pip hw hip.1)) fun _ => hw

lemma keeps_connected {peer : ℕ} (hdetach : Keeps I E (detach env refresh peer)) (naPeer : NewcoinAddress) :
    Keeps I E (connected env refresh peer naPeer) := by
  apply keeps_get
  intro w hw
  rw [wp_bind, wp_set]
  refine keeps_bind (h.keeps_peerConnected peer naPeer _) (fun bNew => ?_) _ (h.frame w peer _ hw rfl rfl rfl)
  refine keeps_ite (fun _ => ?_) fun _ => keeps_pure _
  exact keeps_bind (keeps_modify fun w hw => h.frame w peer _ hw rfl rfl rfl) fun _ => hdetach

lemma keeps_relayMessage (fromPeer : Option ℕ) (msg : Option PackedMessage) :
    Keeps I E (relayMessage env fromPeer msg) := by
  refine keeps_scopedLock h.mutex h.deadlock (keeps_get fun w hw => ?_)
  refine keeps_forM (fun pair _ => keeps_get fun w hw => ?_) w hw
  refine wp_ite (fun _ => ?_) fun _ => hw
  obtain ⟨hd, hip, _⟩ := Peer.sendPacket_frame msg (w.peers pair.2)
  exact h.frame w pair.2 _ hw (Peer.sendPacket_pool msg _) hd hip

/-- **Every operation**, once it is known of new peers and of those that end. -/
theorem keeps_run (hconnect : Connects env I E)
    (hdetach : ∀ (refresh : M PUnit) (peer : ℕ), Keeps I E refresh → Keeps I E (detach env refresh peer))
    (fuel : ℕ) {op : Op} (haccept : op = .accept → Keeps I E (createPeer true)) :
    Keeps I E (op.run env fuel) := by
  have hrefresh : Keeps I E (scanRefresh env fuel) := h.keeps_scanRefresh hconnect fuel
  cases op with
  | peerConnect pip => exact keeps_bind (hconnect.keeps _ pip) fun _ => keeps_pure _
  | peerConnected peer naPeer pip =>
    exact keeps_bind (h.keeps_peerConnected peer naPeer pip) fun _ => keeps_pure _
  | peerDisconnected peer naPeer => exact h.keeps_peerDisconnected peer naPeer
  | peerClosed peer pip => exact h.keeps_peerClosed hrefresh peer pip
  | peerVerified peer => exact h.keeps_peerVerified hrefresh peer
  | peerAvailable => exact keeps_bind h.keeps_peerAvailable fun _ => keeps_pure _
  | policyLowWater => exact h.keeps_policyLowWater hconnect fuel
  | scanRefresh => exact hrefresh
  | relayMessage fromPeer msg => exact h.keeps_relayMessage fromPeer msg
  | getPeerVector => exact keeps_bind h.keeps_getPeerVector fun _ => keeps_pure _
  | savePeer pip => exact keeps_bind (h.keeps_savePeer hrefresh pip) fun _ => keeps_pure _
  | connectTo pip => exact h.keeps_connectTo hrefresh pip
  | table rows => exact keeps_modify fun w hw => h.aside.rows w rows hw
  | accept => exact keeps_bind (haccept rfl) fun _ => keeps_pure _
  | connected peer naPeer => exact h.keeps_connected (hdetach _ peer hrefresh) naPeer
  | detach peer => exact hdetach _ peer hrefresh
  | other peer mHelloed mReadbuf mSendQ mSendingPacket =>
    exact keeps_modify fun w hw => h.frame w peer _ hw rfl rfl rfl

end Peerwise

end Newcoin.ConnectionPool
