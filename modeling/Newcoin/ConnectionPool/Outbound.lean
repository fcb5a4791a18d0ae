import Newcoin.ConnectionPool.Lock
import Newcoin.Peer.Ends
import Mathlib.Data.Finset.Insert

/-!
# Outbound peers

`peerConnect` gives the peer it creates a null pointer to the pool.  So an outbound peer that ends calls
nobody: whatever ends it stops at the null pointer, and in every state that is reached none has ended
(`Silent`).

* `outbound_ends_at_null` — in every reachable state, and for everything that may end the peer.
* `outbound_end_lost` — a connection that is refused.
-/

namespace Newcoin.ConnectionPool.Outbound

open Lib Program

variable {env : Env} {w : World} {inbound : Finset ℕ} {refresh : M PUnit}

/-- A handler of a peer runs. -/
def handle (env : Env) (ms : Peer.Messages) (refresh : M PUnit) (peer : ℕ) (handler : Peer.Handler) :
    M PUnit := do
  let w ← get
  let p := w.peers peer
  let r := handler.run ms p
  set (w.setPeer peer r.1)
  forM r.2 (perform env refresh peer p.mConnectionPool)

/-- **The invariant**: a peer that is not inbound has no pointer to the pool, is alive, and has an
address. -/
structure Silent (inbound : Finset ℕ) (w : World) : Prop where
  inbound_lt : ∀ p ∈ inbound, p < w.created
  pool : ∀ p, p < w.created → p ∉ inbound → (w.peers p).mConnectionPool = false
  detaching : ∀ p, p < w.created → p ∉ inbound → (w.peers p).mDetaching = false
  ipPort : ∀ p, p < w.created → p ∉ inbound → (w.peers p).mIpPort.1 ≠ []

/-- A peer changes. -/
lemma Silent.setPeer (h : Silent inbound w) (peer : ℕ) (p : Peer)
    (hp : peer < w.created → peer ∉ inbound →
      p.mConnectionPool = false ∧ p.mDetaching = false ∧ p.mIpPort.1 ≠ []) :
    Silent inbound (w.setPeer peer p) := by
  have hall : ∀ q, q < w.created → q ∉ inbound → ((w.setPeer peer p).peers q).mConnectionPool = false ∧
      ((w.setPeer peer p).peers q).mDetaching = false ∧ ((w.setPeer peer p).peers q).mIpPort.1 ≠ [] := by
    intro q hlt hout
    by_cases hq : q = peer
    · subst hq
      rw [World.setPeer_self]
      exact hp hlt hout
    · rw [World.setPeer_ne _ _ _ hq]
      exact ⟨h.pool q hlt hout, h.detaching q hlt hout, h.ipPort q hlt hout⟩
  exact ⟨h.inbound_lt, fun q hlt hout => (hall q hlt hout).1, fun q hlt hout => (hall q hlt hout).2.1,
    fun q hlt hout => (hall q hlt hout).2.2⟩

lemma silent_peerwise : Peerwise env (Silent inbound) fun _ => True where
  aside := ⟨fun _ _ h => ⟨h.1, h.2, h.3, h.4⟩, fun _ _ h => ⟨h.1, h.2, h.3, h.4⟩, fun _ _ h => ⟨h.1, h.2, h.3, h.4⟩,
    fun _ _ h => ⟨h.1, h.2, h.3, h.4⟩⟩
  scanning _ h := ⟨h.1, h.2, h.3, h.4⟩
  fault _ := trivial
  running := trivial
  lock _ _ _ := trivial
  deadlock := trivial
  nullPool := trivial
  mutex _ _ h := ⟨h.1, h.2, h.3, h.4⟩
  ips _ _ h := ⟨h.1, h.2, h.3, h.4⟩
  keys _ _ h := ⟨h.1, h.2, h.3, h.4⟩
  frame _ peer _ h hpool hd hip := h.setPeer peer _ fun hlt hout =>
    ⟨hpool.trans (h.pool peer hlt hout), hd.trans (h.detaching peer hlt hout), hip ▸ h.ipPort peer hlt hout⟩
  discover _ peer _ h hip := h.setPeer peer _ fun hlt hout =>
    ⟨h.pool peer hlt hout, h.detaching peer hlt hout, hip⟩

/-! ### The null pointer -/

/-- **Whatever calls the pool stops.** -/
lemma forM_null {effects : List Peer.Effect} (h : ∃ e ∈ effects, e.CallsPool) (peer : ℕ) (w : World) :
    (forM effects (perform env refresh peer false) : M PUnit) w = .error .nullPool := by
  induction effects with
  | nil =>
    obtain ⟨e, he, _⟩ := h
    cases he
  | cons e effects ih =>
    rw [List.forM_cons]
    have hrest : ¬ e.CallsPool → (forM effects (perform env refresh peer false) : M PUnit) w = .error .nullPool := by
      intro he
      obtain ⟨e', he', hcalls⟩ := h
      rcases List.mem_cons.mp he' with rfl | hmem
      · exact absurd hcalls he
      · exact ih ⟨e', hmem, hcalls⟩
    cases e with
    | peerDisconnected naPeer => rfl
    | peerClosed ipPort => rfl
    | asyncWrite packet => exact hrest id
    | asyncRead n handler => exact hrest id
    | message type body => exact hrest id

/-- A live peer with an address and without a pointer detaches. -/
lemma detach_null {peer : ℕ} (hpool : (w.peers peer).mConnectionPool = false)
    (hd : (w.peers peer).mDetaching = false) (hip : (w.peers peer).mIpPort.1 ≠ []) :
    detach env refresh peer w = .error .nullPool := by
  have hcalls : ∃ e ∈ (w.peers peer).detach.2, e.CallsPool := by
    refine ⟨.peerClosed (w.peers peer).mIpPort, ?_, trivial⟩
    rw [Peer.detach_of_live hd, if_pos hip]
    exact List.mem_append_right _ List.mem_cons_self
  have hstop := @forM_null env refresh _ hcalls peer
    (w.setPeer peer (w.peers peer).detach.1)
  rw [← hpool] at hstop
  exact hstop

/-- A handler of it runs that ends it. -/
lemma handle_null {ms : Peer.Messages} {peer : ℕ} {handler : Peer.Handler}
    (hpool : (w.peers peer).mConnectionPool = false)
    (hcalls : ∃ e ∈ (handler.run ms (w.peers peer)).2, e.CallsPool) :
    handle env ms refresh peer handler w = .error .nullPool := by
  have hstop := @forM_null env refresh _ hcalls peer
    (w.setPeer peer (handler.run ms (w.peers peer)).1)
  rw [← hpool] at hstop
  exact hstop

/-! ### Every step -/

/-- A peer is created. -/
lemma Silent.create {inbound' : Finset ℕ} {t : World} (h : Silent inbound w) (hcreated : t.created = w.created + 1)
    (hold : ∀ p, p < w.created → t.peers p = w.peers p) (hsub : inbound ⊆ inbound')
    (hsup : ∀ p ∈ inbound', p ∈ inbound ∨ p = w.created)
    (hnew : w.created ∉ inbound' → (t.peers w.created).mConnectionPool = false ∧
      (t.peers w.created).mDetaching = false ∧ (t.peers w.created).mIpPort.1 ≠ []) :
    Silent inbound' t := by
  have hall : ∀ p, p < t.created → p ∉ inbound' → (t.peers p).mConnectionPool = false ∧
      (t.peers p).mDetaching = false ∧ (t.peers p).mIpPort.1 ≠ [] := by
    intro p hlt hout
    rcases (Nat.lt_succ_iff_lt_or_eq.mp (hcreated ▸ hlt)) with hlt | rfl
    · have hout' : p ∉ inbound := fun hp => hout (hsub hp)
      rw [hold p hlt]
      exact ⟨h.pool p hlt hout', h.detaching p hlt hout', h.ipPort p hlt hout'⟩
    · exact hnew hout
  refine ⟨?_, fun p hlt hout => (hall p hlt hout).1, fun p hlt hout => (hall p hlt hout).2.1,
    fun p hlt hout => (hall p hlt hout).2.2⟩
  intro p hp
  rw [hcreated]
  rcases hsup p hp with hp | rfl
  · exact Nat.lt_succ_of_lt (h.inbound_lt p hp)
  · exact Nat.lt_succ_self _

/-- The peer of `peerConnect` is told nothing of the pool. -/
lemma detach_dialling (hsource : env.poolPointer = false) {pip : IpPort} (hip : pip.1 ≠ []) (n : ℕ) :
    detach env refresh w.created { dialling env pip w with mPeerLock := n } = .error .nullPool := by
  refine detach_null ?_ ?_ ?_
  · exact (congrArg Peer.mConnectionPool dialling_self).trans hsource
  · exact congrArg Peer.mDetaching dialling_self
  · exact ne_of_eq_of_ne (congrArg (fun p => p.mIpPort.1) dialling_self) hip

/-- A new outbound peer has no pointer, and an address. -/
lemma keeps_peerConnect (hsource : env.poolPointer = false) (refresh : M PUnit) (pip : IpPort) :
    Keeps (Silent inbound) (fun _ => True) (peerConnect env refresh pip) := by
  intro w h
  refine wp_peerConnect (fun _ => trivial) (fun _ _ => h) (fun _ _ => trivial) ?_ ?_
  · exact fun _ hip _ => wp_of_error (detach_dialling hsource hip _) trivial
  · intro _ hip _
    refine h.create rfl (fun p hp => dialling_of_lt hp) subset_rfl (fun p hp => Or.inl hp) fun _ => ⟨?_, ?_, ?_⟩
    · exact (congrArg Peer.mConnectionPool dialling_self).trans hsource
    · exact congrArg Peer.mDetaching dialling_self
    · exact ne_of_eq_of_ne (congrArg (fun p => p.mIpPort.1) dialling_self) hip

/-- A call on a peer keeps the invariant, whatever it asks of the pool. -/
lemma keeps_effects (hrefresh : Keeps (Silent inbound) (fun _ => True) refresh) (h : Silent inbound w) {peer : ℕ}
    {r : Peer × List Peer.Effect} (hr : peer < w.created → peer ∉ inbound → Peer.Outcome (w.peers peer) r) :
    wp (do
      set (w.setPeer peer r.1)
      forM r.2 (perform env refresh peer (w.peers peer).mConnectionPool))
      (fun _ => Silent inbound) (fun _ => True) w := by
  rw [wp_bind, wp_set]
  by_cases hcalls : peer < w.created ∧ peer ∉ inbound ∧ ∃ e ∈ r.2, e.CallsPool
  · obtain ⟨hlt, hout, hcalls⟩ := hcalls
    rw [h.pool peer hlt hout]
    exact wp_of_error (forM_null hcalls peer _) trivial
  · have hset : Silent inbound (w.setPeer peer r.1) := by
      refine h.setPeer peer _ fun hlt hout => ?_
      rcases hr hlt hout with hsame | hpool
      · rw [hsame.pool, hsame.detaching, hsame.ipPort]
        exact ⟨h.pool peer hlt hout, h.detaching peer hlt hout, h.ipPort peer hlt hout⟩
      · exact absurd ⟨hlt, hout, hpool⟩ hcalls
    exact keeps_forM (fun e _ => silent_peerwise.keeps_perform hrefresh peer _ e) _ hset

lemma keeps_detach (hrefresh : Keeps (Silent inbound) (fun _ => True) refresh) (peer : ℕ) :
    Keeps (Silent inbound) (fun _ => True) (detach env refresh peer) := by
  refine keeps_get fun w h => keeps_effects hrefresh h fun hlt hout => ?_
  exact Peer.detach_outcome (h.detaching peer hlt hout) (h.ipPort peer hlt hout) ⟨rfl, rfl, rfl⟩

lemma keeps_handle (ms : Peer.Messages) (hrefresh : Keeps (Silent inbound) (fun _ => True) refresh) (peer : ℕ)
    (handler : Peer.Handler) : Keeps (Silent inbound) (fun _ => True) (handle env ms refresh peer handler) := by
  refine keeps_get fun w h => keeps_effects hrefresh h fun hlt hout => ?_
  exact Peer.Handler.outcome (h.detaching peer hlt hout) (h.ipPort peer hlt hout) ms handler

/-! ### Runs -/

/-- The pool, and which peers come from inbound connections. -/
structure State where
  world : World
  inbound : Finset ℕ

/-- An operation of the pool, or a handler of a peer. -/
inductive Act
  | pool (op : Op)
  | handler (peer : ℕ) (handler : Peer.Handler)

def Act.run (env : Env) (ms : Peer.Messages) (fuel : ℕ) : Act → M PUnit
  | .pool op => op.run env fuel
  | .handler peer h => handle env ms (scanRefresh env fuel) peer h

/-- The inbound peers once an act is over. -/
def accepts (s : State) : Act → Finset ℕ
  | .pool .accept => insert s.world.created s.inbound
  | _ => s.inbound

/-- The surroundings are as the source has them: `peerConnect` passes a null pointer, the lock is a
`boost::mutex`. -/
structure Source (env : Env) : Prop where
  poolPointer : env.poolPointer = false
  reentrant : env.reentrant = false

/-- An act returns. -/
def Step (s t : State) : Prop :=
  ∃ (env : Env) (ms : Peer.Messages) (fuel : ℕ) (act : Act), Source env ∧
    act.run env ms fuel s.world = .ok (⟨⟩, t.world) ∧ t.inbound = accepts s act

def Reachable (s : State) : Prop := ∃ rows, Relation.ReflTransGen Step ⟨World.init rows, ∅⟩ s

lemma run_silent (henv : Source env) (ms : Peer.Messages) {s : State} (h : Silent s.inbound s.world) (fuel : ℕ)
    (act : Act) :
    wp (act.run env ms fuel) (fun _ t => Silent (accepts s act) t) (fun _ => True) s.world := by
  have hconnect : ∀ {inbound}, Connects env (Silent inbound) fun _ => True :=
    connects_of_keeps (fun _ _ h => ⟨h.1, h.2, h.3, h.4⟩) (keeps_peerConnect henv.poolPointer)
  have hrefresh : ∀ {inbound}, Keeps (Silent inbound) (fun _ => True) (scanRefresh env fuel) :=
    silent_peerwise.keeps_scanRefresh hconnect fuel
  cases act with
  | handler peer handler => exact keeps_handle ms hrefresh peer handler _ h
  | pool op =>
    by_cases hop : op = .accept
    · subst hop
      refine h.create rfl ?_ (Finset.subset_insert _ _) ?_ fun hout => absurd (Finset.mem_insert_self _ _) hout
      · intro p hp
        exact s.world.setPeer_ne _ _ hp.ne
      · intro p hp
        exact (Finset.mem_insert.mp hp).symm
    · have hkeeps : accepts s (.pool op) = s.inbound := by
        cases op with
        | accept => exact absurd rfl hop
        | _ => rfl
      rw [hkeeps]
      refine silent_peerwise.keeps_run hconnect (fun _ peer hr => keeps_detach hr peer) fuel ?_ _ h
      exact fun haccept => absurd haccept hop

lemma run_free (henv : Source env) (ms : Peer.Messages) (hfree : w.mPeerLock = 0) (fuel : ℕ) (act : Act) :
    wp (act.run env ms fuel) (fun _ t => t.mPeerLock = 0) (fun _ => True) w := by
  have hlevel : Lock.Level 0 0 w := ⟨hfree, Nat.zero_le _⟩
  have hkeeps : Keeps (Lock.Level 0 0) (Lock.Excuse env 0) (act.run env ms fuel) := by
    cases act with
    | pool op => exact Lock.keeps_run henv.reentrant fuel op
    | handler peer handler =>
      have hrefresh : Keeps (Lock.Level 0 0) (Lock.Excuse env 0) (scanRefresh env fuel) :=
        Lock.keeps_run henv.reentrant fuel .scanRefresh
      refine keeps_get fun w h => ?_
      rw [wp_bind, wp_set]
      exact keeps_forM (fun e _ => Lock.keeps_perform hrefresh peer _ e) _ h
  exact wp_mono (hkeeps w hlevel) (fun _ _ ht => ht.1) fun _ _ => trivial

lemma reachable_inv {s : State} (h : Reachable s) : Silent s.inbound s.world ∧ s.world.mPeerLock = 0 := by
  obtain ⟨rows, hrun⟩ := h
  induction hrun with
  | refl => exact ⟨⟨nofun, nofun, nofun, nofun⟩, rfl⟩
  | tail _ hstep ih =>
    obtain ⟨env, ms, fuel, act, henv, hok, hinbound⟩ := hstep
    have hsilent := wp_ok (run_silent henv ms ih.1 fuel act) hok
    have hfree := wp_ok (run_free henv ms ih.2 fuel act) hok
    rw [← hinbound] at hsilent
    exact ⟨hsilent, hfree⟩

/-- A `connect` that fails at once. -/
lemma peerConnect_null (hsource : env.poolPointer = false) (hfree : w.mPeerLock = 0) {pip : IpPort}
    (hlookup : w.mIpMap.lookup pip = none) (hip : pip.1 ≠ []) (hfails : env.connectFails w.created = true) :
    peerConnect env refresh pip w = .error .nullPool := by
  refine (error_iff (p := True) (wp_peerConnect ?_ ?_ ?_ ?_ ?_)).mpr trivial
  · exact fun hheld => absurd hfree hheld.1
  · intro itIp hknown
    rw [hlookup] at hknown
    cases hknown
  · exact fun _ hempty => absurd hempty hip
  · exact fun _ _ _ => wp_of_error (detach_dialling hsource hip _) (iff_of_true rfl trivial)
  · intro _ _ hlater
    rw [hfails] at hlater
    cases hlater

/-- **The end of an outbound peer never reaches the pool.**  In every reachable state the peers that
`peerConnect` has created are alive; each handler that ends one, each `detach`, and each `connect` that
fails at once stops at the null pointer. -/
theorem outbound_ends_at_null {s : State} (h : Reachable s) {env : Env} (henv : Source env) (refresh : M PUnit) :
    (∀ p, p < s.world.created → p ∉ s.inbound →
      (s.world.peers p).mDetaching = false ∧
      detach env refresh p s.world = .error .nullPool ∧
      ∀ ms handler, (handler.run ms (s.world.peers p)).1.mDetaching = true →
        handle env ms refresh p handler s.world = .error .nullPool) ∧
    ∀ pip, s.world.mIpMap.lookup pip = none → pip.1 ≠ [] → env.connectFails s.world.created = true →
      peerConnect env refresh pip s.world = .error .nullPool := by
  obtain ⟨hsilent, hfree⟩ := reachable_inv h
  refine ⟨?_, fun pip hlookup hip hfails => peerConnect_null henv.poolPointer hfree hlookup hip hfails⟩
  intro p hlt hout
  have hpool := hsilent.pool p hlt hout
  have hd := hsilent.detaching p hlt hout
  have hip := hsilent.ipPort p hlt hout
  refine ⟨hd, detach_null hpool hd hip, ?_⟩
  intro ms handler hends
  rcases Peer.Handler.outcome hd hip ms handler with hsame | hcalls
  · rw [hsame.detaching, hd] at hends
    cases hends
  · exact handle_null hpool hcalls

/-- As the source has it. -/
def sourceEnv : Env := { sampleEnv with poolPointer := false }

/-- Messages that say nothing. -/
def silence : Peer.Messages := ⟨none, fun _ _ p => (p, []), fun _ _ _ _ _ => Or.inl ⟨rfl, rfl, rfl⟩⟩

/-- A new pool has dialled an address. -/
def dialled : State :=
  { world :=
      match (Op.peerConnect ([49], 5)).run sourceEnv 1 (World.init []) with
      | .ok r => r.2
      | .error _ => World.init []
    inbound := ∅ }

lemma dialled_reachable : Reachable dialled := by
  refine ⟨[], Relation.ReflTransGen.single ?_⟩
  exact ⟨sourceEnv, silence, 1, .pool (.peerConnect ([49], 5)), ⟨rfl, rfl⟩, by rfl, rfl⟩

lemma dialled_ends : 0 < dialled.world.created ∧
    ((Peer.Handler.connect (.other 111)).run silence (dialled.world.peers 0)).1.mDetaching = true := by
  decide +kernel

theorem outbound_ends_at_null_refused :
    handle sourceEnv silence (pure ()) 0 (.connect (.other 111)) dialled.world = .error .nullPool :=
  ((outbound_ends_at_null dialled_reachable ⟨rfl, rfl⟩ (pure ())).1 0 dialled_ends.1
    (Finset.notMem_empty 0)).2.2 silence (.connect (.other 111)) dialled_ends.2

/-- The connection is refused: `detach` does not get through to the pool. -/
theorem outbound_end_lost :
    ¬ ∀ s, Reachable s → ∀ env, Source env → ∀ ms refresh p handler, p < s.world.created → p ∉ s.inbound →
      (handler.run ms (s.world.peers p)).1.mDetaching = true →
      ∃ t, handle env ms refresh p handler s.world = .ok (⟨⟩, t) := by
  intro h
  obtain ⟨t, hok⟩ := h dialled dialled_reachable sourceEnv ⟨rfl, rfl⟩ silence (pure ()) 0 (.connect (.other 111))
    dialled_ends.1 (Finset.notMem_empty 0) dialled_ends.2
  have hstop : handle sourceEnv silence (pure ()) 0 (.connect (.other 111)) dialled.world = .error .nullPool := by
    rfl
  rw [hstop] at hok
  cases hok

end Newcoin.ConnectionPool.Outbound
