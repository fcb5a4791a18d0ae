import Newcoin.ConnectionPool.Refresh

/-!
# No scheduled address is forgotten

The keys of the table and the scan timer, operation by operation.  Every operation that changes the schedule,
or ends a scan, calls `scanRefresh`; `Arms` is what that call does wherever it is made, `Kept` what is true
before and after each operation that enters no address.
-/

namespace Newcoin.ConnectionPool

open Lib Program

/-! ### Keys and timer -/

def World.keys (w : World) : List Bytes := w.rows.map PeerIp.IpPort

/-- An address that the table's writers can be given. -/
def Address (pip : IpPort) : Prop := 32 ∉ pip.1 ∧ IsInt pip.2

/-- Distinct, and as the table's writers form them. -/
structure Keyed (ks : List Bytes) : Prop where
  nodup : ks.Nodup
  written : ∀ k ∈ ks, ∃ pip, Address pip ∧ k = ipPortText pip

/-- The timer is set for the row that comes first. -/
inductive TimerSet (w : World) : Prop
  | next (row : PeerIp) (next : ℤ) (mem : row ∈ w.rows) (scheduled : row.ScanNext = some next)
      (earliest : ∀ r ∈ w.rows, ∀ n, r.ScanNext = some n → next ≤ n) (timer : w.mScanTimer = some (some next))
  | unscheduled (rows : ∀ r ∈ w.rows, r.ScanNext = none) (timer : w.mScanTimer = none)

/-- Somebody is scanned, or the timer is set. -/
def Armed (w : World) : Prop := w.mScanning = none → TimerSet w

/-- It does not stop at a key that cannot be split. -/
def NoFault (e : Stop) : Prop := ∀ fault, e ≠ .fault fault

lemma Keyed.splits {rows : List PeerIp} (h : Keyed (rows.map PeerIp.IpPort)) {row : PeerIp} (hrow : row ∈ rows) :
    ∃ pip, splitIpPort row.IpPort = .ok pip := by
  obtain ⟨pip, ⟨hspace, hport⟩, htext⟩ := h.written _ (List.mem_map_of_mem hrow)
  exact ⟨pip, htext ▸ splitIpPort_ipPortText hspace hport⟩

/-- The keys are given; where `a` holds, the timer is set too. -/
def Kept (ks : List Bytes) (a : Prop) (w : World) : Prop := w.keys = ks ∧ (a → Armed w)

/-- Invariants of the table and the timer: the rest of the world has no part in them. -/
structure Beside (I : World → Prop) : Prop where
  mutex : ∀ w n, I w → I { w with mPeerLock := n }
  readings : ∀ w n, I w → I { w with readings := n }
  statements : ∀ w n, I w → I { w with statements := n }
  ips : ∀ w mIpMap, I w → I { w with mIpMap }
  connected : ∀ w mConnectedMap, I w → I { w with mConnectedMap }
  created : ∀ w n, I w → I { w with created := n }
  setPeer : ∀ w peer p, I w → I (w.setPeer peer p)

lemma beside_kept (ks : List Bytes) (a : Prop) : Beside (Kept ks a) := by
  have harmed {w t : World} (hrows : t.rows = w.rows) (hscanning : t.mScanning = w.mScanning)
      (htimer : t.mScanTimer = w.mScanTimer) (h : Kept ks a w) : Kept ks a t := by
    refine ⟨(congrArg _ hrows).trans h.1, fun ha hnone => ?_⟩
    cases h.2 ha (hscanning ▸ hnone) with
    | next row next mem scheduled earliest timer =>
      exact .next row next (hrows ▸ mem) scheduled (hrows ▸ earliest) (htimer.trans timer)
    | unscheduled rows timer => exact .unscheduled (hrows ▸ rows) (htimer.trans timer)
  exact ⟨fun w _ => harmed (w := w) rfl rfl rfl, fun w _ => harmed (w := w) rfl rfl rfl,
    fun w _ => harmed (w := w) rfl rfl rfl, fun w _ => harmed (w := w) rfl rfl rfl,
    fun w _ => harmed (w := w) rfl rfl rfl, fun w _ => harmed (w := w) rfl rfl rfl,
    fun w _ _ => harmed (w := w) rfl rfl rfl⟩

section Silent

variable {env : Env} {I : World → Prop} {E : Stop → Prop} (h : Beside I) (hE : E .deadlock)
include h

namespace Beside

lemma keeps_executeSQL : Keeps I E (executeSQL env) := fun w hw => h.statements w _ hw

lemma keeps_universalTime : Keeps I E (universalTime env) := fun w hw => h.readings w _ hw

lemma keeps_createPeer (mConnectionPool : Bool) : Keeps I E (createPeer mConnectionPool) :=
  keeps_get fun w hw => h.created _ _ (h.setPeer w _ _ hw)

lemma keeps_setIpPort (peer : ℕ) (pip : IpPort) : Keeps I E (setIpPort peer pip) :=
  keeps_modify fun w hw => h.setPeer w _ _ hw

include hE

lemma keeps_lock {α : Type} {m : M α} (hm : Keeps I E m) : Keeps I E (scopedLock env m) :=
  keeps_scopedLock h.mutex hE hm

lemma keeps_peerDisconnected (peer : ℕ) (naPeer : Option NewcoinAddress) :
    Keeps I E (peerDisconnected env peer naPeer) := by
  cases naPeer with
  | none => exact keeps_pure _
  | some naPeer =>
    refine h.keeps_lock hE (keeps_get fun w hw => ?_)
    cases w.mConnectedMap.lookup naPeer with
    | none => exact hw
    | some itCm => exact wp_ite (fun _ => hw) fun _ => h.connected _ _ hw

lemma keeps_eraseIp (peer : ℕ) (pip : IpPort) : Keeps I E (eraseIp env peer pip) := by
  refine h.keeps_lock hE (keeps_get fun w hw => ?_)
  cases w.mIpMap.lookup pip with
  | none => exact hw
  | some itIp => exact wp_ite (fun _ => h.ips _ _ hw) fun _ => hw

lemma keeps_peerConnected (peer : ℕ) (naPeer : NewcoinAddress) (pip : IpPort) :
    Keeps I E (peerConnected env peer naPeer pip) := by
  refine keeps_ite (fun _ => keeps_pure _) fun _ => h.keeps_lock hE (keeps_get fun w hw => ?_)
  cases w.mConnectedMap.lookup naPeer with
  | none => exact h.connected _ _ hw
  | some itCm =>
    refine keeps_bind (keeps_get fun w hw => ?_) (fun _ => keeps_pure _) w hw
    exact wp_ite (fun _ => h.ips _ _ (h.setPeer _ _ _ hw)) fun _ => hw

lemma keeps_relayMessage (fromPeer : Option ℕ) (msg : Option PackedMessage) :
    Keeps I E (relayMessage env fromPeer msg) := by
  refine h.keeps_lock hE (keeps_get fun w hw => ?_)
  refine keeps_forM (fun pair _ => keeps_get fun w hw => ?_) w hw
  exact wp_ite (fun _ => h.setPeer _ _ _ hw) fun _ => hw

lemma keeps_getPeerVector : Keeps I E (getPeerVector env) :=
  h.keeps_lock hE (keeps_get fun _ hw => hw)

end Beside

end Silent

/-! ### The schedule is taken up -/

section Arming

variable {env : Env} {refresh : M PUnit} {ks : List Bytes} {a : Prop} (hok : ∀ n, env.executeSQL n = true)

/-- Wherever it is called, the keys stay and the timer is set. -/
def Arms (refresh : M PUnit) : Prop :=
  ∀ w, Keyed w.keys → wp refresh (fun _ t => t.keys = w.keys ∧ Armed t) NoFault w

lemma noFault_deadlock : NoFault .deadlock := fun _ h => by cases h

lemma noFault_nullPool : NoFault .nullPool := fun _ h => by cases h

lemma noFault_assertion : NoFault .assertion := fun _ h => by cases h

lemma noFault_running : NoFault .running := fun _ h => by cases h

lemma Arms.keeps (h : Arms refresh) (hks : Keyed ks) : Keeps (Kept ks a) NoFault refresh := by
  rintro w ⟨rfl, _⟩
  exact wp_mono (h w hks) (fun _ _ ht => ⟨ht.1, fun _ => ht.2⟩) fun _ he => he

/-- Whatever is known before. -/
lemma Arms.wp (h : Arms refresh) (hks : Keyed ks) {w : World} (hw : w.keys = ks) :
    Program.wp refresh (fun _ => Kept ks a) NoFault w := by
  subst hw
  exact wp_mono (h w hks) (fun _ _ ht => ⟨ht.1, fun _ => ht.2⟩) fun _ he => he

lemma keys_updateScan (ScanNext : Option ℤ) (ScanInterval : ℤ) (k : Bytes) (rows : List PeerIp) :
    (updateScan ScanNext ScanInterval k rows).map PeerIp.IpPort = rows.map PeerIp.IpPort := by
  rw [updateScan, List.map_map]
  refine List.map_congr_left fun row _ => ?_
  rw [Function.comp_apply]
  split_ifs <;> rfl

/-- It changes the schedule only where it asks for `scanRefresh`. -/
lemma peerScanSet_spec (pip : IpPort) {w : World} (h : Kept ks a w) :
    wp (peerScanSet env pip) (fun bScanDirty t => t.keys = ks ∧ (bScanDirty = false → Kept ks a t)) NoFault w := by
  have hbeside := beside_kept ks a
  have hquery : Kept ks a { w with statements := w.statements + 1 } := hbeside.statements w _ h
  rw [peerScanSet, wp_bind, wp_executeSQL]
  refine wp_ite (fun _ => ?_) fun _ => ⟨h.1, fun _ => hquery⟩
  rw [wp_bind, wp_get]
  split
  · exact ⟨h.1, fun _ => hquery⟩
  · refine wp_ite (fun _ => ?_) fun _ => ⟨h.1, fun _ => hquery⟩
    rw [wp_bind, wp_universalTime, wp_bind, wp_updateRows]
    split_ifs
    · exact ⟨(keys_updateScan _ _ _ _).trans h.1, fun hfalse => by cases hfalse⟩
    · exact ⟨h.1, fun hfalse => by cases hfalse⟩

lemma keeps_peerClosed (hrefresh : Arms refresh) (hks : Keyed ks) (peer : ℕ) (pip : IpPort) :
    Keeps (Kept ks a) NoFault (peerClosed env refresh peer pip) := by
  intro w hw
  rw [peerClosed, wp_bind]
  -- what was scanned is no more, or nothing has changed
  have hstopped : wp (stopScanning peer) (fun bStopped t => Kept ks (bStopped = false ∧ a) t) NoFault w := by
    rw [stopScanning, wp_bind, wp_get]
    refine wp_ite (fun _ => ?_) fun _ => ⟨hw.1, fun h => hw.2 h.2⟩
    exact ⟨hw.1, fun h => by cases h.1⟩
  refine wp_mono hstopped ?_ fun _ he => he
  intro bStopped u hu
  rw [wp_bind]
  refine wp_mono ((beside_kept ks _).keeps_eraseIp noFault_deadlock peer pip u hu) ?_ fun _ he => he
  intro bRedundant v hv
  rw [wp_bind]
  have hdirty : wp (if bRedundant then pure false else peerScanSet env pip : M Bool)
      (fun bDirty t => t.keys = ks ∧ (bDirty = false → Kept ks (bStopped = false ∧ a) t)) NoFault v :=
    wp_ite (fun _ => ⟨hv.1, fun _ => hv⟩) fun _ => peerScanSet_spec pip hv
  refine wp_mono hdirty ?_ fun _ he => he
  rintro bDirty t ⟨hkeys, ht⟩
  refine wp_ite (fun _ => hrefresh.wp hks hkeys) fun hnone => ?_
  rw [Bool.or_eq_true, not_or, Bool.not_eq_true, Bool.not_eq_true] at hnone
  obtain ⟨_, harmed⟩ := ht hnone.1
  exact ⟨hkeys, fun ha => harmed ⟨hnone.2, ha⟩⟩

lemma keeps_perform (hrefresh : Arms refresh) (hks : Keyed ks) (peer : ℕ) (mConnectionPool : Bool)
    (effect : Peer.Effect) : Keeps (Kept ks a) NoFault (perform env refresh peer mConnectionPool effect) := by
  cases effect with
  | peerDisconnected naPeer =>
    refine keeps_ite (fun _ => ?_) fun _ => keeps_throw noFault_nullPool
    exact (beside_kept ks a).keeps_peerDisconnected noFault_deadlock _ _
  | peerClosed ipPort =>
    exact keeps_ite (fun _ => keeps_peerClosed hrefresh hks _ _) fun _ => keeps_throw noFault_nullPool
  | _ => exact keeps_pure _

lemma keeps_detach (hrefresh : Arms refresh) (hks : Keyed ks) (peer : ℕ) :
    Keeps (Kept ks a) NoFault (detach env refresh peer) := by
  refine keeps_get fun w hw => ?_
  rw [wp_bind, wp_set]
  exact keeps_forM (fun effect _ => keeps_perform hrefresh hks peer _ effect) _ ((beside_kept ks a).setPeer w _ _ hw)

lemma keeps_connect (hrefresh : Arms refresh) (hks : Keyed ks) (peer : ℕ) (pip : IpPort) :
    Keeps (Kept ks a) NoFault (connect env refresh peer pip) := by
  refine keeps_bind ((beside_kept ks a).keeps_setIpPort peer pip) fun _ => ?_
  refine keeps_ite (fun _ => keeps_throw noFault_assertion) fun _ => ?_
  exact keeps_ite (fun _ => keeps_detach hrefresh hks peer) fun _ => keeps_pure _

lemma keeps_peerConnect (hrefresh : Arms refresh) (hks : Keyed ks) (pip : IpPort) :
    Keeps (Kept ks a) NoFault (peerConnect env refresh pip) := by
  have hbeside := beside_kept ks a
  refine hbeside.keeps_lock noFault_deadlock (keeps_get fun w hw => ?_)
  cases w.mIpMap.lookup pip with
  | some itIp => exact hw
  | none =>
    refine keeps_bind (hbeside.keeps_createPeer _) (fun ppNew => ?_) w hw
    refine keeps_bind (keeps_connect hrefresh hks ppNew pip) fun _ => ?_
    exact keeps_bind (keeps_modify fun w hw => hbeside.ips _ _ hw) fun _ => keeps_pure _

include hok in
/-- **`scanRefresh` sets the timer**, or a peer is scanned.  By induction on the fuel: the table is looked at
again after an address that the pool has. -/
lemma arms_scanRefresh (fuel : ℕ) : Arms (scanRefresh env fuel) := by
  induction fuel with
  | zero => exact fun _ _ => noFault_running
  | succ fuel ih =>
    intro w hks
    change wp (get >>= _) _ _ _
    rw [wp_bind, wp_get]
    refine wp_ite (fun hbusy => ⟨rfl, fun hnone => ?_⟩) fun _ => ?_
    · rw [hnone] at hbusy
      cases hbusy
    rw [wp_bind, wp_executeSQL, if_pos (hok _)]
    have hfirst := selectScan_first w.rows
    cases hselect : selectScan w.rows with
    | none => exact ⟨rfl, fun _ => .unscheduled (hfirst.unscheduled hselect) rfl⟩
    | some row =>
      obtain ⟨hrow, next, hnext, hmin⟩ := hfirst.scheduled row hselect
      dsimp only
      rw [wp_bind, wp_universalTime, hnext, Option.getD_some]
      refine wp_ite (fun _ => ?_) fun hlater => ?_
      · -- it is put off, and dialled
        obtain ⟨pip, hsplit⟩ := hks.splits hrow
        rw [hsplit, liftFault, wp_bind, wp_pure, wp_bind, wp_modify, wp_bind, wp_updateRows, if_pos (hok _), wp_bind]
        have hkeys := keys_updateScan (some (env.universalTime w.readings + max row.ScanInterval
          env.PEER_SCAN_INTERVAL_MIN)) (max row.ScanInterval env.PEER_SCAN_INTERVAL_MIN * 2) row.IpPort w.rows
        refine wp_mono (keeps_peerConnect (a := False) ih hks pip _ ⟨hkeys, False.elim⟩) ?_ fun _ he => he
        intro mScanning t ht
        rw [wp_bind, wp_modify]
        refine wp_ite (fun _ => ?_) fun hsome => ⟨ht.1, fun hnone => ?_⟩
        · refine wp_mono (ih { t with mScanning } (ht.1 ▸ hks)) ?_ fun _ he => he
          exact fun _ u hu => ⟨hu.1.trans ht.1, hu.2⟩
        · exact absurd (Option.isNone_iff_eq_none.2 hnone) hsome
      · -- the timer is set for it
        rw [ptFromSeconds] at hlater ⊢
        split_ifs at hlater ⊢ with hneg
        · exact absurd rfl hlater
        · exact ⟨rfl, fun _ => .next row next hrow hnext hmin rfl⟩

lemma keeps_peerAvailable (hks : Keyed ks) : Keeps (Kept ks a) NoFault (peerAvailable env) := by
  have hbeside := beside_kept ks a
  refine keeps_bind (hbeside.keeps_lock noFault_deadlock (keeps_get fun _ hw => hw)) fun vstrIpPort => ?_
  refine keeps_bind hbeside.keeps_executeSQL fun bFound => keeps_get fun w hw => ?_
  cases hfound : if bFound = true then selectAvailable vstrIpPort w.rows else none with
  | none => exact hw
  | some row =>
    have hrow : row ∈ w.rows := by
      split_ifs at hfound
      exact List.mem_of_find?_eq_some hfound
    have hkeys : Keyed w.keys := hw.1 ▸ hks
    obtain ⟨pip, hsplit⟩ := hkeys.splits hrow
    refine wp_ite (fun _ => hw) fun _ => ?_
    rw [hsplit]
    exact hw

lemma keeps_policyLowWater (hrefresh : Arms refresh) (hks : Keyed ks) (fuel : ℕ) :
    Keeps (Kept ks a) NoFault (policyLowWater env refresh fuel) := by
  induction fuel with
  | zero => exact keeps_throw noFault_running
  | succ fuel ih =>
    refine keeps_get fun w hw => wp_ite (fun _ => hw) fun _ => ?_
    refine keeps_bind (keeps_peerAvailable hks) (fun found => ?_) w hw
    cases found with
    | none => exact keeps_pure _
    | some pip => exact keeps_bind (keeps_peerConnect hrefresh hks pip) fun _ => ih

lemma keeps_peerVerified (hrefresh : Arms refresh) (hks : Keyed ks) (peer : ℕ) :
    Keeps (Kept ks a) NoFault (peerVerified env refresh peer) := by
  refine keeps_get fun w hw => wp_ite (fun _ => ?_) fun _ => hw
  have hrows : wp (unschedule env (w.peers peer)) (fun _ t => t.keys = ks) NoFault w := by
    refine wp_ite (fun _ => hw.1) fun _ => ?_
    rw [wp_updateRows]
    split_ifs
    · exact (keys_updateScan _ _ _ _).trans hw.1
    · exact hw.1
  rw [wp_bind]
  refine wp_mono hrows ?_ fun _ he => he
  intro _ t ht
  rw [wp_bind, wp_modify]
  exact hrefresh.wp hks ht

lemma keeps_connected (hrefresh : Arms refresh) (hks : Keyed ks) (peer : ℕ) (naPeer : NewcoinAddress) :
    Keeps (Kept ks a) NoFault (connected env refresh peer naPeer) := by
  have hbeside := beside_kept ks a
  refine keeps_get fun w hw => ?_
  rw [wp_bind, wp_set]
  refine keeps_bind (hbeside.keeps_peerConnected noFault_deadlock peer naPeer _) (fun bNew => ?_) _
    (hbeside.setPeer w _ _ hw)
  refine keeps_ite (fun _ => ?_) fun _ => keeps_pure _
  exact keeps_bind (keeps_modify fun w hw => hbeside.setPeer w _ _ hw) fun _ => keeps_detach hrefresh hks peer

/-! ### New addresses -/

/-- The keys after one has been learned. -/
def learn (k : Bytes) (ks : List Bytes) : List Bytes := if ks.contains k then ks else ks ++ [k]

lemma learn_of_mem {k : Bytes} (h : k ∈ ks) : learn k ks = ks := if_pos (List.contains_iff_mem.2 h)

lemma learn_of_notMem {k : Bytes} (h : k ∉ ks) : learn k ks = ks ++ [k] := if_neg (mt List.contains_iff_mem.1 h)

lemma keys_insertNew (k : Bytes) (rows : List PeerIp) :
    (insertNew k rows).1.map PeerIp.IpPort = learn k (rows.map PeerIp.IpPort) ∧
      ((insertNew k rows).2 = false → k ∈ rows.map PeerIp.IpPort) := by
  unfold insertNew
  have hany : (rows.any fun row => row.IpPort = k) = true ↔ k ∈ rows.map PeerIp.IpPort := by
    simp [List.any_eq_true]
  by_cases h : k ∈ rows.map PeerIp.IpPort
  · rw [if_pos (hany.2 h), learn_of_mem h]
    exact ⟨rfl, fun _ => h⟩
  · rw [if_neg (mt hany.1 h), learn_of_notMem h]
    exact ⟨by simp, fun hfalse => by cases hfalse⟩

lemma Keyed.append {k : Bytes} {pip : IpPort} (h : Keyed ks) (hpip : Address pip) (htext : k = ipPortText pip)
    (hk : k ∉ ks) : Keyed (ks ++ [k]) := by
  refine ⟨?_, fun k' hk' => ?_⟩
  · rw [List.nodup_append]
    refine ⟨h.nodup, List.nodup_singleton k, fun x hx y hy hxy => ?_⟩
    rw [List.mem_singleton.1 hy] at hxy
    exact hk (hxy ▸ hx)
  · rcases List.mem_append.1 hk' with hk' | hk'
    · exact h.written k' hk'
    · exact ⟨pip, hpip, (List.mem_singleton.1 hk').trans htext⟩

lemma Keyed.learn {pip : IpPort} (h : Keyed ks) (hpip : Address pip) : Keyed (learn (ipPortText pip) ks) := by
  by_cases hmem : ipPortText pip ∈ ks
  · rw [learn_of_mem hmem]
    exact h
  · rw [learn_of_notMem hmem]
    exact h.append hpip rfl hmem

include hok in
lemma savePeer_spec (hrefresh : Arms refresh) {pip : IpPort} (hpip : Address pip) {w : World} (hks : Keyed w.keys)
    (hw : Armed w) :
    wp (savePeer env refresh pip) (fun _ t => t.keys = learn (ipPortText pip) w.keys ∧ Armed t) NoFault w := by
  obtain ⟨hkeys, hold⟩ := keys_insertNew (ipPortText pip) w.rows
  rw [savePeer, wp_bind, wp_executeSQL, if_pos (hok _), wp_bind, wp_get]
  refine wp_ite (fun _ => ?_) fun hfalse => ?_
  · rw [wp_bind, wp_updateRows, if_pos (hok _), wp_bind]
    have hnew : Keyed ((insertNew (ipPortText pip) w.rows).1.map PeerIp.IpPort) := hkeys ▸ hks.learn hpip
    refine wp_mono (hrefresh _ hnew) ?_ fun _ he => he
    exact fun _ t ht => ⟨ht.1.trans hkeys, ht.2⟩
  · have hmem := hold (Bool.not_eq_true _ ▸ hfalse)
    have hsame : learn (ipPortText pip) w.keys = w.keys := learn_of_mem hmem
    have harmed := ((beside_kept w.keys True).statements w (w.statements + 1) ⟨rfl, fun _ => hw⟩).2 trivial
    exact ⟨hsame.symm, harmed⟩

include hok in
lemma connectTo_spec (hrefresh : Arms refresh) {pip : IpPort} (hpip : Address pip) {w : World} (hks : Keyed w.keys) :
    wp (connectTo env refresh pip) (fun _ t => t.keys = w.keys.filter (· ≠ ipPortText pip) ++ [ipPortText pip] ∧
      Keyed t.keys ∧ Armed t) NoFault w := by
  have hkeys : (replaceNow (ipPortText pip) w.rows).map PeerIp.IpPort =
      w.keys.filter (· ≠ ipPortText pip) ++ [ipPortText pip] := by
    rw [replaceNow, List.map_append, World.keys, List.filter_map]
    rfl
  have hnew : Keyed ((replaceNow (ipPortText pip) w.rows).map PeerIp.IpPort) := by
    rw [hkeys]
    refine Keyed.append ⟨hks.nodup.filter _, fun k hk => hks.written k (List.mem_of_mem_filter hk)⟩ hpip rfl ?_
    simp
  rw [connectTo, wp_bind, wp_updateRows, if_pos (hok _)]
  refine wp_mono (hrefresh _ hnew) ?_ fun _ he => he
  rintro _ t ⟨ht, harmed⟩
  have hkeyed : Keyed t.keys := ht ▸ hnew
  exact ⟨ht.trans hkeys, hkeyed, harmed⟩

end Arming

end Newcoin.ConnectionPool
