import Newcoin.ConnectionPool.Keeps
import Mathlib.Data.Finset.Insert
import Mathlib.Logic.Relation

/-!
# The maps of the pool

Every entry names a peer that has not detached, under the address or the key the peer has (`Linked`).
While a peer ends, its own entries are the exception (`Leaving`), until the pool has erased them.

* `maps_name_live_peers` — so it is after every run.
-/

namespace Newcoin.ConnectionPool.Maps

open Lib Program

/-! ### The invariant -/

def Live (w : World) (p : ℕ) : Prop := p < w.created ∧ (w.peers p).mDetaching = false

/-- **The invariant.**  Only the peers in `called` have a key. -/
structure Linked (called : Finset ℕ) (w : World) : Prop where
  ips : ∀ pip p, w.mIpMap.lookup pip = some p → Live w p ∧ (w.peers p).mIpPort = pip ∧ pip.1 ≠ []
  keys : ∀ naPeer p, w.mConnectedMap.lookup naPeer = some p →
    Live w p ∧ (w.peers p).mNodePublic = some naPeer
  silent : ∀ p, p ∉ called → (w.peers p).mNodePublic = none

/-- The peer ends: no entry names it but those under the address and the key it had. -/
structure Leaving (called : Finset ℕ) (peer : ℕ) (pip : IpPort) (key : Option NewcoinAddress) (w : World) :
    Prop where
  ips : ∀ a p, w.mIpMap.lookup a = some p →
    (p ≠ peer ∧ Live w p ∧ (w.peers p).mIpPort = a ∧ a.1 ≠ []) ∨ (p = peer ∧ a = pip ∧ a.1 ≠ [])
  keys : ∀ naPeer p, w.mConnectedMap.lookup naPeer = some p →
    (p ≠ peer ∧ Live w p ∧ (w.peers p).mNodePublic = some naPeer) ∨ (p = peer ∧ key = some naPeer)
  silent : ∀ p, p ∉ called → (w.peers p).mNodePublic = none

variable {env : Env} {called : Finset ℕ} {w t : World}

lemma Linked.mono {called' : Finset ℕ} (h : Linked called w) (hsub : called ⊆ called') : Linked called' w :=
  ⟨h.ips, h.keys, fun p hp => h.silent p fun hmem => hp (hsub hmem)⟩

/-- The exceptions are gone. -/
lemma Leaving.linked {peer : ℕ} {pip : IpPort} (h : Leaving called peer pip none w)
    (hips : ∀ p, w.mIpMap.lookup pip = some p → p = peer → pip.1 = []) : Linked called w := by
  refine ⟨?_, ?_, h.silent⟩
  · intro a p hp
    rcases h.ips a p hp with ⟨_, hgood⟩ | ⟨rfl, rfl, hne⟩
    · exact hgood
    · exact absurd (hips p hp rfl) hne
  · intro naPeer p hp
    rcases h.keys naPeer p hp with ⟨_, hgood⟩ | ⟨_, hkey⟩
    · exact hgood
    · cases hkey

/-! ### Connecting -/

/-- A peer changes, and what names it stays true of it. -/
lemma Linked.setPeer (h : Linked called w) (peer : ℕ) (p : Peer)
    (hips : ∀ pip, w.mIpMap.lookup pip = some peer → p.mDetaching = false ∧ p.mIpPort = pip)
    (hkeys : ∀ naPeer, w.mConnectedMap.lookup naPeer = some peer →
      p.mDetaching = false ∧ p.mNodePublic = some naPeer)
    (hsilent : peer ∉ called → p.mNodePublic = none) : Linked called (w.setPeer peer p) := by
  refine ⟨?_, ?_, ?_⟩
  · intro pip q hq
    obtain ⟨⟨hlt, hlive⟩, hip, hne⟩ := h.ips pip q hq
    by_cases hpeer : q = peer
    · subst hpeer
      obtain ⟨hlive', hip'⟩ := hips pip hq
      exact ⟨⟨hlt, by rw [World.setPeer_self, hlive']⟩, by rw [World.setPeer_self, hip'], hne⟩
    · exact ⟨⟨hlt, by rw [World.setPeer_ne _ _ _ hpeer, hlive]⟩,
        by rw [World.setPeer_ne _ _ _ hpeer, hip], hne⟩
  · intro naPeer q hq
    obtain ⟨⟨hlt, hlive⟩, hkey⟩ := h.keys naPeer q hq
    by_cases hpeer : q = peer
    · subst hpeer
      obtain ⟨hlive', hkey'⟩ := hkeys naPeer hq
      exact ⟨⟨hlt, by rw [World.setPeer_self, hlive']⟩, by rw [World.setPeer_self, hkey']⟩
    · exact ⟨⟨hlt, by rw [World.setPeer_ne _ _ _ hpeer, hlive]⟩, by rw [World.setPeer_ne _ _ _ hpeer, hkey]⟩
  · intro q hq
    by_cases hpeer : q = peer
    · subst hpeer
      rw [World.setPeer_self]
      exact hsilent hq
    · rw [World.setPeer_ne _ _ _ hpeer]
      exact h.silent q hq

/-- A peer becomes one more; no entry names it. -/
lemma Linked.create (h : Linked called w) {p : Peer} (hkey : p.mNodePublic = none) :
    Linked called { w.setPeer w.created p with created := w.created + 1 } := by
  have hset := h.setPeer w.created p
    (fun pip hp => absurd (h.ips pip _ hp).1.1 (lt_irrefl _))
    (fun naPeer hp => absurd (h.keys naPeer _ hp).1.1 (lt_irrefl _)) fun _ => hkey
  refine ⟨?_, ?_, hset.silent⟩
  · intro pip q hq
    obtain ⟨⟨hlt, hlive⟩, hgood⟩ := hset.ips pip q hq
    exact ⟨⟨Nat.lt_succ_of_lt hlt, hlive⟩, hgood⟩
  · intro naPeer q hq
    obtain ⟨⟨hlt, hlive⟩, hgood⟩ := hset.keys naPeer q hq
    exact ⟨⟨Nat.lt_succ_of_lt hlt, hlive⟩, hgood⟩

/-- An entry under a peer's own address. -/
lemma Linked.insertIp (h : Linked called w) {pip : IpPort} {peer : ℕ} (hlive : Live w peer)
    (hip : (w.peers peer).mIpPort = pip) (hne : pip.1 ≠ []) :
    Linked called { w with mIpMap := w.mIpMap.insert pip peer } := by
  refine ⟨?_, h.keys, h.silent⟩
  intro a q hq
  by_cases ha : a = pip
  · subst ha
    rw [AList.lookup_insert] at hq
    obtain rfl := Option.some.inj hq
    exact ⟨hlive, hip, hne⟩
  · rw [AList.lookup_insert_ne ha] at hq
    exact h.ips a q hq

/-- An entry under a peer's own key. -/
lemma Linked.insertKey (h : Linked called w) {naPeer : NewcoinAddress} {peer : ℕ} (hlive : Live w peer)
    (hkey : (w.peers peer).mNodePublic = some naPeer) :
    Linked called { w with mConnectedMap := w.mConnectedMap.insert naPeer peer } := by
  refine ⟨h.ips, ?_, h.silent⟩
  intro a q hq
  by_cases ha : a = naPeer
  · subst ha
    rw [AList.lookup_insert] at hq
    obtain rfl := Option.some.inj hq
    exact ⟨hlive, hkey⟩
  · rw [AList.lookup_insert_ne ha] at hq
    exact h.keys a q hq

lemma linked_lock (w : World) (n : ℕ) (h : Linked called w) : Linked called { w with mPeerLock := n } :=
  ⟨h.ips, h.keys, h.silent⟩

lemma linked_aside : Aside (Linked called) where
  readings _ _ h := ⟨h.ips, h.keys, h.silent⟩
  statements _ _ h := ⟨h.ips, h.keys, h.silent⟩
  rows _ _ h := ⟨h.ips, h.keys, h.silent⟩
  scanTimer _ _ h := ⟨h.ips, h.keys, h.silent⟩

lemma linked_scans : Scans env (Linked called) fun _ => True where
  aside := linked_aside
  scanning _ h := ⟨h.ips, h.keys, h.silent⟩
  fault _ := trivial
  running := trivial
  lock _ _ _ := trivial

/-- No entry names the peer. -/
def Unnamed (w : World) (p : ℕ) : Prop :=
  (∀ pip, w.mIpMap.lookup pip ≠ some p) ∧ ∀ naPeer, w.mConnectedMap.lookup naPeer ≠ some p

lemma createPeer_linked (mConnectionPool : Bool) (h : Linked called w) :
    wp (createPeer mConnectionPool)
      (fun n t => Linked called t ∧ Live t n ∧ Unnamed t n ∧ (t.peers n).mNodePublic = none)
      (fun _ => True) w := by
  simp only [createPeer, wp_bind, wp_get, wp_set, wp_pure]
  refine ⟨h.create rfl, ⟨Nat.lt_succ_self _, ?_⟩, ⟨fun pip hp => ?_, fun naPeer hp => ?_⟩, ?_⟩
  · exact congrArg Peer.mDetaching (w.setPeer_self _ _)
  · exact absurd (h.ips pip _ hp).1.1 (lt_irrefl _)
  · exact absurd (h.keys naPeer _ hp).1.1 (lt_irrefl _)
  · exact congrArg Peer.mNodePublic (w.setPeer_self _ _)

lemma setIpPort_linked {peer : ℕ} (pip : IpPort) (h : Linked called w) (hlive : Live w peer)
    (hips : ∀ a, w.mIpMap.lookup a ≠ some peer) :
    wp (setIpPort peer pip)
      (fun _ t => Linked called t ∧ Live t peer ∧ (t.peers peer).mIpPort = pip) (fun _ => True) w := by
  refine ⟨h.setPeer peer _ (fun a ha => absurd ha (hips a))
      (fun naPeer ha => h.keys naPeer peer ha |>.imp_left And.right)
    (h.silent peer), ⟨hlive.1, ?_⟩, ?_⟩
  · exact (congrArg Peer.mDetaching (w.setPeer_self _ _)).trans hlive.2
  · exact congrArg Peer.mIpPort (w.setPeer_self _ _)

/-- Where no `connect` fails at once, a new peer gets its address and its entry. -/
lemma peerConnect_linked (hasync : ∀ n, env.connectFails n = false) (refresh : M PUnit) (pip : IpPort) :
    Keeps (Linked called) (fun _ => True) (peerConnect env refresh pip) := by
  refine keeps_scopedLock linked_lock trivial (keeps_get fun w h => ?_)
  cases hlookup : w.mIpMap.lookup pip with
  | some itIp => exact h
  | none =>
    simp only [wp_bind]
    refine wp_mono (createPeer_linked env.poolPointer h) ?_ fun _ he => he
    rintro n t ⟨ht, hlive, hunnamed, _⟩
    simp only [connect, hasync, wp_bind]
    refine wp_mono (setIpPort_linked pip ht hlive hunnamed.1) ?_ fun _ he => he
    rintro _ t ⟨ht, hlive, hip⟩
    by_cases hne : pip.1 = []
    · rw [if_pos hne]
      trivial
    · rw [if_neg hne]
      exact ht.insertIp hlive hip hne

lemma linked_connects (hasync : ∀ n, env.connectFails n = false) :
    Connects env (Linked called) fun _ => True :=
  connects_of_keeps (fun _ _ h => ⟨h.ips, h.keys, h.silent⟩) (peerConnect_linked hasync)

/-! ### Ending -/

section Ending

variable {peer : ℕ} {pip : IpPort} {key : Option NewcoinAddress}

/-- A peer detaches; what named it still does. -/
lemma leaving_detach (h : Linked called w) (hd : (w.peers peer).mDetaching = false) :
    Leaving called peer (w.peers peer).mIpPort (w.peers peer).mNodePublic
      (w.setPeer peer (w.peers peer).detach.1) := by
  refine ⟨?_, ?_, ?_⟩
  · intro a q hq
    obtain ⟨hlive, hip, hne⟩ := h.ips a q hq
    by_cases hpeer : q = peer
    · subst hpeer
      exact Or.inr ⟨rfl, hip.symm, hne⟩
    · unfold Live
      rw [World.setPeer_ne _ _ _ hpeer]
      exact Or.inl ⟨hpeer, hlive, hip, hne⟩
  · intro naPeer q hq
    obtain ⟨hlive, hkey⟩ := h.keys naPeer q hq
    by_cases hpeer : q = peer
    · subst hpeer
      exact Or.inr ⟨rfl, hkey⟩
    · unfold Live
      rw [World.setPeer_ne _ _ _ hpeer]
      exact Or.inl ⟨hpeer, hlive, hkey⟩
  · intro q hq
    by_cases hpeer : q = peer
    · subst hpeer
      rw [World.setPeer_self, Peer.detach, hd]
      rfl
    · rw [World.setPeer_ne _ _ _ hpeer]
      exact h.silent q hq

/-- The entry under the key is erased if it is the peer's own. -/
lemma peerDisconnected_leaving {naPeer : NewcoinAddress} (h : Leaving called peer pip (some naPeer) w) :
    wp (peerDisconnected env peer (some naPeer)) (fun _ t => Leaving called peer pip none t)
      (fun _ => True) w := by
  refine wp_locked env w trivial ?_
  rw [wp_bind, wp_get]
  simp only
  cases hlookup : w.mConnectedMap.lookup naPeer with
  | none =>
    refine ⟨h.ips, ?_, h.silent⟩
    intro a q hq
    rcases h.keys a q hq with hgood | ⟨_, hkey⟩
    · exact Or.inl hgood
    · obtain rfl := Option.some.inj hkey
      rw [hlookup] at hq
      cases hq
  | some itCm =>
    simp only
    split_ifs with hother
    · refine ⟨h.ips, ?_, h.silent⟩
      intro a q hq
      rcases h.keys a q hq with hgood | ⟨hq', hkey⟩
      · exact Or.inl hgood
      · obtain rfl := Option.some.inj hkey
        rw [hlookup] at hq
        exact absurd ((Option.some.inj hq).trans hq') hother
    · refine ⟨h.ips, ?_, h.silent⟩
      intro a q hq
      by_cases ha : a = naPeer
      · subst ha
        rw [AList.lookup_erase] at hq
        cases hq
      · rw [AList.lookup_erase_ne ha] at hq
        rcases h.keys a q hq with hgood | ⟨_, hkey⟩
        · exact Or.inl hgood
        · exact absurd (Option.some.inj hkey).symm ha

/-- So is the entry under the address. -/
lemma eraseIp_linked (h : Leaving called peer pip none w) :
    wp (eraseIp env peer pip) (fun _ t => Linked called t) (fun _ => True) w := by
  refine wp_locked env w trivial ?_
  rw [wp_bind, wp_get]
  simp only
  -- an entry of another peer, or none, is left alone
  have hkeep (hother : w.mIpMap.lookup pip ≠ some peer) : Linked called w :=
    h.linked fun p hp heq => absurd (heq ▸ hp) hother
  cases hlookup : w.mIpMap.lookup pip with
  | none => exact linked_lock w _ (hkeep (by simp [hlookup]))
  | some itIp =>
    simp only
    split_ifs with hpeer
    · refine @Leaving.linked _ _ peer pip ⟨fun a q hq => ?_, h.keys, h.silent⟩ fun q hq => ?_
      · by_cases ha : a = pip
        · subst ha
          rw [AList.lookup_erase] at hq
          cases hq
        · rw [AList.lookup_erase_ne ha] at hq
          exact h.ips a q hq
      · rw [AList.lookup_erase] at hq
        cases hq
    · refine linked_lock w _ (hkeep fun heq => hpeer ?_)
      exact Option.some.inj (hlookup.symm.trans heq)

lemma peerClosed_linked {refresh : M PUnit} (hrefresh : Keeps (Linked called) (fun _ => True) refresh)
    (h : Leaving called peer pip none w) :
    wp (peerClosed env refresh peer pip) (fun _ t => Linked called t) (fun _ => True) w := by
  have hstop : wp (stopScanning peer) (fun _ t => Leaving called peer pip none t) (fun _ => True) w := by
    simp only [stopScanning, wp_bind, wp_get]
    split_ifs
    · exact ⟨h.ips, h.keys, h.silent⟩
    · exact h
  rw [peerClosed, wp_bind]
  refine wp_mono hstop (fun bStopped t ht => ?_) fun _ he => he
  rw [wp_bind]
  refine wp_mono (eraseIp_linked ht) (fun bRedundant t ht => ?_) fun _ he => he
  refine keeps_bind (keeps_ite (fun _ => keeps_pure _) fun _ => linked_scans.keeps_peerScanSet _)
    (fun bDirty => ?_) t ht
  exact keeps_ite (fun _ => hrefresh) fun _ => keeps_pure _

/-- **A peer that detaches leaves no entry behind.** -/
lemma detach_linked {refresh : M PUnit} (hrefresh : Keeps (Linked called) (fun _ => True) refresh)
    (peer : ℕ) : Keeps (Linked called) (fun _ => True) (detach env refresh peer) := by
  refine keeps_detach_of_live fun w h hd => ?_
  have hleaving := leaving_detach h hd
  -- the key first
  have hkey : wp (forM ((w.peers peer).mNodePublic.toList.map Peer.Effect.peerDisconnected)
      (perform env refresh peer (w.peers peer).mConnectionPool))
      (fun _ t => Leaving called peer (w.peers peer).mIpPort none t) (fun _ => True)
      (w.setPeer peer (w.peers peer).detach.1) := by
    cases hnode : (w.peers peer).mNodePublic with
    | none =>
      rw [hnode] at hleaving
      exact hleaving
    | some naPeer =>
      rw [hnode] at hleaving
      simp only [Option.toList, List.map_cons, List.map_nil, List.forM_cons, List.forM_nil, bind_pure_unit]
      exact wp_ite (fun _ => peerDisconnected_leaving hleaving) fun _ => trivial
  refine wp_mono hkey (fun _ t ht => ?_) fun _ he => he
  split_ifs with hip
  · simp only [List.forM_cons, List.forM_nil, bind_pure_unit]
    exact wp_ite (fun _ => peerClosed_linked hrefresh ht) fun _ => trivial
  · exact ht.linked fun _ _ _ => not_not.mp hip

end Ending

/-! ### Saying who it is -/

section Connected

variable {peer : ℕ} {naPeer : NewcoinAddress}

lemma discover_linked {itCm : ℕ} (pip : IpPort) (h : Linked called w) (hlive : Live w itCm) :
    wp (discover itCm pip) (fun _ t => Linked called t ∧ t.mConnectedMap = w.mConnectedMap)
      (fun _ => True) w := by
  simp only [discover, wp_bind, wp_get]
  refine wp_ite (fun hip => ?_) fun _ => ⟨h, rfl⟩
  -- a peer without an address has no entry under one
  have hips (a : IpPort) : w.mIpMap.lookup a ≠ some itCm := fun ha => by
    obtain ⟨_, haddr, hne⟩ := h.ips a _ ha
    exact hne (haddr ▸ hip.2)
  obtain ⟨ht, hlive', haddr⟩ := setIpPort_linked pip h hlive hips
  exact ⟨ht.insertIp hlive' haddr hip.1, rfl⟩

/-- A peer with a key that no entry names: the pool takes it in, or notes its address at the peer that
has the key already. -/
lemma peerConnected_linked {pip : IpPort} (h : Linked called w) (hlive : Live w peer)
    (hkey : (w.peers peer).mNodePublic = some naPeer)
    (hunnamed : ∀ a, w.mConnectedMap.lookup a ≠ some peer) :
    wp (peerConnected env peer naPeer pip)
      (fun bNew t => Linked called t ∧ (bNew = false → ∀ a, t.mConnectedMap.lookup a ≠ some peer))
      (fun _ => True) w := by
  refine wp_ite (fun _ => ⟨h, fun _ => hunnamed⟩) fun _ => wp_locked env w trivial ?_
  rw [wp_bind, wp_get]
  have haside : Linked called { w with mPeerLock := w.mPeerLock + 1 } := linked_lock w _ h
  cases hlookup : w.mConnectedMap.lookup naPeer with
  | none =>
    simp only [wp_bind, wp_set, wp_pure]
    refine ⟨linked_lock _ _ (haside.insertKey hlive hkey), ?_⟩
    intro hnew
    exact absurd hnew (by decide)
  | some itCm =>
    simp only [wp_bind, wp_pure]
    refine wp_mono (discover_linked pip haside (h.keys naPeer itCm hlookup).1) ?_ fun _ he => he
    rintro _ t ⟨ht, hmap⟩
    refine ⟨⟨ht.ips, ht.keys, ht.silent⟩, ?_⟩
    intro _ a
    rw [hmap]
    exact hunnamed a

/-- **A peer that says who it is is registered or ends.** -/
lemma connected_linked {refresh : M PUnit} (hrefresh : Keeps (Linked (insert peer called)) (fun _ => True) refresh)
    (h : Linked called w) (hlive : Live w peer) (hcalled : peer ∉ called) :
    wp (connected env refresh peer naPeer) (fun _ t => Linked (insert peer called) t) (fun _ => True) w := by
  have hunnamed (a : NewcoinAddress) : w.mConnectedMap.lookup a ≠ some peer := fun ha => by
    have hkey := (h.keys a _ ha).2
    rw [h.silent peer hcalled] at hkey
    cases hkey
  have hset : Linked (insert peer called)
      (w.setPeer peer { w.peers peer with mNodePublic := some naPeer }) :=
    (h.mono (Finset.subset_insert _ _)).setPeer peer _ (fun a ha => (h.ips a peer ha).imp And.right And.left)
      (fun a ha => absurd ha (hunnamed a)) fun hn => absurd (Finset.mem_insert_self _ _) hn
  rw [connected, wp_bind, wp_get, wp_bind, wp_set, wp_bind]
  refine wp_mono (peerConnected_linked hset ⟨hlive.1, ?_⟩ ?_ hunnamed) ?_ fun _ he => he
  · rw [World.setPeer_self]
    exact hlive.2
  · rw [World.setPeer_self]
  rintro bNew t ⟨ht, hleft⟩
  refine wp_ite (fun hnew => ?_) fun _ => ht
  -- rejected: the key is cleared, and no entry is under it
  have hclear := ht.setPeer peer { t.peers peer with mNodePublic := none }
    (fun a ha => (ht.ips a peer ha).imp And.right And.left)
    (fun a ha => absurd ha (hleft (by simpa using hnew) a)) fun _ => rfl
  exact detach_linked hrefresh peer _ hclear

end Connected

/-! ### Messages -/

/-- What the maps are about stays as it is. -/
lemma Linked.frame (h : Linked called w) {peer : ℕ} {p : Peer}
    (hframe : p.mDetaching = (w.peers peer).mDetaching ∧ p.mIpPort = (w.peers peer).mIpPort ∧
      p.mNodePublic = (w.peers peer).mNodePublic) : Linked called (w.setPeer peer p) := by
  obtain ⟨hd, hip, hkey⟩ := hframe
  refine h.setPeer peer p (fun a ha => ?_) (fun a ha => ?_) fun hn => hkey ▸ h.silent peer hn
  · obtain ⟨⟨_, hlive⟩, hip', _⟩ := h.ips a peer ha
    exact ⟨hd ▸ hlive, hip ▸ hip'⟩
  · obtain ⟨⟨_, hlive⟩, hkey'⟩ := h.keys a peer ha
    exact ⟨hd ▸ hlive, hkey ▸ hkey'⟩

lemma relayMessage_linked (fromPeer : Option ℕ) (msg : Option PackedMessage) :
    Keeps (Linked called) (fun _ => True) (relayMessage env fromPeer msg) := by
  refine keeps_scopedLock linked_lock trivial (keeps_get fun w h => ?_)
  refine keeps_forM (fun pair _ => keeps_get fun w h => ?_) w h
  exact wp_ite (fun _ => h.frame (Peer.sendPacket_frame msg _)) fun _ => h

/-! ### Runs -/

/-- The world, and the peers that have called `peerConnected`. -/
structure State where
  world : World
  called : Finset ℕ

/-- A peer calls `peerConnected` once, with its own address, before it detaches; the other calls that
need a peer come from `detach`. -/
def Allowed (s : State) : Op → Prop
  | .peerConnected .. | .peerDisconnected .. | .peerClosed .. => False
  | .connected peer _ => Live s.world peer ∧ peer ∉ s.called
  | .detach peer => peer < s.world.created
  | _ => True

/-- Who has called `peerConnected` after an operation. -/
def calls (called : Finset ℕ) : Op → Finset ℕ
  | .connected peer _ => insert peer called
  | _ => called

/-- An operation returns; no `connect` fails at once. -/
def Step (s t : State) : Prop :=
  ∃ (env : Env) (fuel : ℕ) (op : Op), (∀ n, env.connectFails n = false) ∧ Allowed s op ∧
    op.run env fuel s.world = .ok (⟨⟩, t.world) ∧ t.called = calls s.called op

def Reachable (s : State) : Prop := ∃ rows, Relation.ReflTransGen Step ⟨World.init rows, ∅⟩ s

lemma linked_init (rows : List PeerIp) : Linked ∅ (World.init rows) := by
  refine ⟨?_, ?_, fun _ _ => rfl⟩
  · intro pip p hp
    exact absurd hp (by simp [World.init])
  · intro naPeer p hp
    exact absurd hp (by simp [World.init])

lemma run_linked (hasync : ∀ n, env.connectFails n = false) {s : State} (h : Linked s.called s.world)
    {op : Op} (hop : Allowed s op) (fuel : ℕ) :
    wp (op.run env fuel) (fun _ t => Linked (calls s.called op) t) (fun _ => True) s.world := by
  have hconnect (refresh : M PUnit) (pip : IpPort) :
      Keeps (Linked s.called) (fun _ => True) (peerConnect env refresh pip) := peerConnect_linked hasync refresh pip
  have hrefresh (called : Finset ℕ) : Keeps (Linked called) (fun _ => True) (scanRefresh env fuel) :=
    linked_scans.keeps_scanRefresh (linked_connects hasync) fuel
  cases op with
  | peerConnected | peerDisconnected | peerClosed => exact hop.elim
  | peerConnect pip => exact keeps_bind (hconnect _ pip) (fun _ => keeps_pure _) _ h
  | peerVerified peer => exact linked_scans.keeps_peerVerified (hrefresh _) peer _ h
  | peerAvailable => exact keeps_bind linked_scans.keeps_peerAvailable (fun _ => keeps_pure _) _ h
  | policyLowWater => exact linked_scans.keeps_policyLowWater (linked_connects hasync) fuel _ h
  | scanRefresh => exact hrefresh _ _ h
  | relayMessage fromPeer msg => exact relayMessage_linked fromPeer msg _ h
  | getPeerVector => exact keeps_bind linked_scans.keeps_getPeerVector (fun _ => keeps_pure _) _ h
  | savePeer pip => exact keeps_bind (linked_scans.keeps_savePeer (hrefresh _) pip) (fun _ => keeps_pure _) _ h
  | connectTo pip => exact linked_scans.keeps_connectTo (hrefresh _) pip _ h
  | table rows => exact ⟨h.ips, h.keys, h.silent⟩
  | accept =>
    rw [Op.run, wp_bind]
    exact wp_mono (createPeer_linked true h) (fun _ t ht => ht.1) fun _ he => he
  | connected peer naPeer => exact connected_linked (hrefresh _) h hop.1 hop.2
  | detach peer => exact detach_linked (hrefresh _) peer _ h
  | other peer mHelloed mReadbuf mSendQ mSendingPacket => exact h.frame ⟨rfl, rfl, rfl⟩

lemma linked_reachable {s : State} (h : Reachable s) : Linked s.called s.world := by
  obtain ⟨rows, hrun⟩ := h
  induction hrun with
  | refl => exact linked_init rows
  | tail _ hstep ih =>
    obtain ⟨env, fuel, op, hasync, hop, hok, hcalled⟩ := hstep
    have ht := wp_ok (run_linked hasync ih hop fuel) hok
    rwa [← hcalled] at ht

/-- **The maps of the pool only name live peers, under the right key**, and no peer that has detached is
in either of them. -/
theorem maps_name_live_peers {s : State} (h : Reachable s) :
    (∀ pip p, s.world.mIpMap.lookup pip = some p →
      (s.world.peers p).mDetaching = false ∧ (s.world.peers p).mIpPort = pip) ∧
    (∀ naPeer p, s.world.mConnectedMap.lookup naPeer = some p →
      (s.world.peers p).mDetaching = false ∧ (s.world.peers p).mNodePublic = some naPeer) ∧
    ∀ p, (s.world.peers p).mDetaching = true →
      (∀ pip, s.world.mIpMap.lookup pip ≠ some p) ∧ ∀ naPeer, s.world.mConnectedMap.lookup naPeer ≠ some p := by
  have hlinked := linked_reachable h
  refine ⟨fun pip p hp => ?_, fun naPeer p hp => ?_, fun p hd => ⟨fun pip hp => ?_, fun naPeer hp => ?_⟩⟩
  · obtain ⟨hlive, hip, _⟩ := hlinked.ips pip p hp
    exact ⟨hlive.2, hip⟩
  · obtain ⟨hlive, hkey⟩ := hlinked.keys naPeer p hp
    exact ⟨hlive.2, hkey⟩
  · exact absurd (hd.symm.trans (hlinked.ips pip p hp).1.2) (by decide)
  · exact absurd (hd.symm.trans (hlinked.keys naPeer p hp).1.2) (by decide)

/-- The state after an operation that returns. -/
def after (s : State) (op : Op) : State :=
  match op.run sampleEnv 1 s.world with
  | .ok r => ⟨r.2, calls s.called op⟩
  | .error _ => s

/-- An inbound peer says who it is. -/
def inboundRun : State := after (after ⟨World.init [], ∅⟩ .accept) (.connected 0 ⟨28, [1]⟩)

/-- An outbound peer turns out to be the same node: the first one takes over the address, the second one
ends. -/
def redundantRun : State := after (after inboundRun (.peerConnect ([49], 5))) (.connected 1 ⟨28, [1]⟩)

theorem maps_name_live_peers_redundant :
    redundantRun.world.mIpMap.lookup ([49], 5) = some 0 ∧ (redundantRun.world.peers 1).mDetaching = true ∧
      (redundantRun.world.peers 0).mDetaching = false ∧ (redundantRun.world.peers 0).mIpPort = ([49], 5) := by
  have h₁ : Step ⟨World.init [], ∅⟩ (after ⟨World.init [], ∅⟩ .accept) :=
    ⟨sampleEnv, 1, .accept, fun _ => rfl, trivial, rfl, rfl⟩
  have h₂ : Step (after ⟨World.init [], ∅⟩ .accept) inboundRun :=
    ⟨sampleEnv, 1, .connected 0 ⟨28, [1]⟩, fun _ => rfl, ⟨⟨Nat.one_pos, rfl⟩, by decide⟩, rfl, rfl⟩
  have h₃ : Step inboundRun (after inboundRun (.peerConnect ([49], 5))) :=
    ⟨sampleEnv, 1, .peerConnect ([49], 5), fun _ => rfl, trivial, rfl, rfl⟩
  have h₄ : Step (after inboundRun (.peerConnect ([49], 5))) redundantRun :=
    ⟨sampleEnv, 1, .connected 1 ⟨28, [1]⟩, fun _ => rfl, ⟨⟨Nat.one_lt_two, rfl⟩, by decide⟩, rfl, rfl⟩
  have h : Reachable redundantRun := ⟨[], (((Relation.ReflTransGen.single h₁).tail h₂).tail h₃).tail h₄⟩
  have hip : redundantRun.world.mIpMap.lookup ([49], 5) = some 0 := by rfl
  exact ⟨hip, by rfl, (maps_name_live_peers h).1 _ _ hip⟩

end Newcoin.ConnectionPool.Maps
