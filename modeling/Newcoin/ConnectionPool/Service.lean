import Newcoin.ConnectionPool.Schedule

/-!
# The pool in service

From `start` on, under any interleaving of its operations, of the handlers of its two timers, and of the
addresses that peers tell of (`Peer::recvPeers`).

* `schedule_kept` — between any two of these nobody scheduled is forgotten, and the policy timer runs.
* `gossip_learns` — what the table knows after a peer has told of addresses.
-/

namespace Newcoin.ConnectionPool.Service

open Lib Program

/-- The pool with its policy timer. -/
structure Pool where
  world : World
  /-- When `mPolicyTimer` expires, if it is set. -/
  mPolicyTimer : Option Time

/-- A call on the pool in which the policy timer has no part. -/
def onWorld {α : Type} (m : M α) : Program Pool Stop α := fun p => do
  let r ← m p.world
  return (r.1, { p with world := r.2 })

@[simp] lemma wp_onWorld {α : Type} (m : M α) (Q : α → Pool → Prop) (E : Stop → Prop) (p : Pool) :
    wp (onWorld m) Q E p = wp m (fun a w => Q a { p with world := w }) E p.world := by
  simp only [wp, onWorld, bind, Except.bind]
  cases m p.world <;> rfl

/-! ### What runs in service -/

/-- An address as a peer tells it. -/
structure TMIPv4EndPoint where
  ipv4 : BitVec 32
  ipv4port : BitVec 32
  deriving DecidableEq, Repr

/-- `inet_ntoa`, of an address in memory order. -/
def inetNtoa (s_addr : BitVec 32) : Bytes :=
  let byte (i : ℕ) : Bytes := decimal (s_addr.toNat / 256 ^ i % 256 : ℕ)
  byte 0 ++ 46 :: (byte 1 ++ 46 :: (byte 2 ++ 46 :: byte 3))

/-- The address of `recvPeers`. -/
def endpoint (node : TMIPv4EndPoint) : IpPort := (inetNtoa node.ipv4, toInt node.ipv4port.toNat)

/-- Neither none nor this host. -/
def usable (node : TMIPv4EndPoint) : Bool :=
  (endpoint node).1 != cString "0.0.0.0" && (endpoint node).1 != cString "127.0.0.1"

/-- How a wait for a timer ends. -/
inductive Wait
  | success
  | aborted
  | error
  deriving DecidableEq, Repr

/-- What the handlers of the timers throw. -/
def deadlineError : Fault := .runtimeError "Internal error: unexpected deadline error."

/-- `POLICY_INTERVAL_SECONDS`. -/
def POLICY_INTERVAL_SECONDS : ℤ := 5

variable (env : Env) (fuel : ℕ)

/-- `Peer::recvPeers`. -/
def recvPeers (nodes : List TMIPv4EndPoint) : M PUnit :=
  forM nodes fun node => do
    if usable node then
      let _ ← savePeer env (scanRefresh env fuel) (endpoint node)

/-- `policyEnforce`. -/
def policyEnforce : Program Pool Stop PUnit := do
  modify fun p => { p with mPolicyTimer := none }
  onWorld (policyLowWater env (scanRefresh env fuel) fuel)
  let tpNow ← onWorld (universalTime env)
  modify fun p => { p with mPolicyTimer := some (some (tpNow + POLICY_INTERVAL_SECONDS)) }

/-- The handler of a timer, by what it is set for: `policyHandler`, `scanHandler`. -/
def handler (enforce : Program Pool Stop PUnit) (ecResult : Wait) : Program Pool Stop PUnit :=
  match ecResult with
  | .aborted => pure ()
  | .success => enforce
  | .error => throw (.fault deadlineError)

def policyHandler (ecResult : Wait) : Program Pool Stop PUnit := handler (policyEnforce env fuel) ecResult

def scanHandler (ecResult : Wait) : Program Pool Stop PUnit := handler (onWorld (scanRefresh env fuel)) ecResult

/-- `start`. -/
def start : Program Pool Stop PUnit := do
  policyEnforce env fuel
  onWorld (scanRefresh env fuel)

inductive Event
  | op (op : Op)
  | policyEnforce
  | policyHandler (ecResult : Wait)
  | scanHandler (ecResult : Wait)
  | recvPeers (nodes : List TMIPv4EndPoint)

def Event.run : Event → Program Pool Stop PUnit
  | .op o => onWorld (o.run env fuel)
  | .policyEnforce => Service.policyEnforce env fuel
  | .policyHandler ecResult => Service.policyHandler env fuel ecResult
  | .scanHandler ecResult => Service.scanHandler env fuel ecResult
  | .recvPeers nodes => onWorld (Service.recvPeers env fuel nodes)

/-- `start`, then the events in order. -/
def run (events : List Event) : Program Pool Stop PUnit := do
  start env fuel
  forM events (Event.run env fuel)

/-- What the pool is given to enter in the table has an address without spaces; others write it in no other
way. -/
def Event.Proper : Event → Prop
  | .op (.savePeer pip) => Address pip
  | .op (.connectTo pip) => Address pip
  | .op (.table _) => False
  | _ => True

/-! ### The invariant -/

/-- **The invariant**: the keys are well formed, none of `ks` is lost, and the timers are set. -/
structure Inv (env : Env) (ks : List Bytes) (p : Pool) : Prop where
  keyed : Keyed p.world.keys
  grows : ks ⊆ p.world.keys
  armed : Armed p.world
  policy : ∃ n, p.mPolicyTimer = some (some (env.universalTime n + POLICY_INTERVAL_SECONDS))

/-- The only exception there may be is that of the timers. -/
def Sound (e : Stop) : Prop := ∀ fault, e = .fault fault → fault = deadlineError

lemma NoFault.sound {e : Stop} (h : NoFault e) : Sound e := fun fault he => absurd he (h fault)

variable {env fuel} {ks : List Bytes} (hok : ∀ n, env.executeSQL n = true)

/-- A call that keeps the keys and the scan timer. -/
lemma keeps_onWorld {α : Type} {m : M α} (h : ∀ ks', Keyed ks' → Keeps (Kept ks' True) NoFault m) :
    Keeps (Inv env ks) Sound (onWorld m) := by
  intro p hp
  rw [wp_onWorld]
  refine wp_mono (h p.world.keys hp.keyed p.world ⟨rfl, fun _ => hp.armed⟩) ?_ fun _ he => NoFault.sound he
  exact fun _ w hw => ⟨hw.1 ▸ hp.keyed, hw.1 ▸ hp.grows, hw.2 trivial, hp.policy⟩

/-- A call that enters keys in the table. -/
lemma keeps_entering {α : Type} {m : M α} (h : ∀ w, Keyed w.keys → Armed w →
      wp m (fun _ t => Keyed t.keys ∧ w.keys ⊆ t.keys ∧ Armed t) NoFault w) :
    Keeps (Inv env ks) Sound (onWorld m) := by
  intro p hp
  rw [wp_onWorld]
  refine wp_mono (h p.world hp.keyed hp.armed) ?_ fun _ he => NoFault.sound he
  exact fun _ w hw => ⟨hw.1, List.Subset.trans hp.grows hw.2.1, hw.2.2, hp.policy⟩

lemma notMem_decimal {c : UInt8} (hc : c < 48) (hminus : c ≠ 45) (i : ℤ) : c ∉ decimal i := by
  obtain ⟨ds, -, hlt, -, htext⟩ := decimal_eq i
  rw [htext, List.mem_append]
  rintro (hsign | hdigit)
  · split_ifs at hsign
    · exact hminus (List.mem_singleton.1 hsign)
    · cases hsign
  · obtain ⟨d, hd, rfl⟩ := List.mem_map.1 hdigit
    rw [UInt8.lt_iff_toNat_lt, toNat_digitChar (hlt d hd)] at hc
    exact absurd hc (by simp)

/-- **What a peer tells can be entered**: the text of an address has no space. -/
lemma address_endpoint (node : TMIPv4EndPoint) : Address (endpoint node) := by
  unfold Address endpoint
  dsimp only
  refine ⟨?_, isInt_toInt _⟩
  simp only [inetNtoa, List.mem_append, List.mem_cons, space_notMem_decimal, false_or, or_false]
  decide

lemma subset_learn (k : Bytes) (ks : List Bytes) : ks ⊆ learn k ks := by
  by_cases h : k ∈ ks
  · rw [learn_of_mem h]
    exact List.Subset.refl ks
  · rw [learn_of_notMem h]
    exact List.subset_append_left ks [k]

include hok

/-- What the keys are after a peer has told of addresses. -/
lemma recvPeers_spec (nodes : List TMIPv4EndPoint) {w : World} (hks : Keyed w.keys) (hw : Armed w) :
    wp (recvPeers env fuel nodes) (fun _ t =>
      t.keys = (nodes.filter usable).foldl (fun ks node => learn (ipPortText (endpoint node)) ks) w.keys ∧
        Keyed t.keys ∧ w.keys ⊆ t.keys ∧ Armed t) NoFault w := by
  induction nodes generalizing w with
  | nil => exact ⟨rfl, hks, List.Subset.refl _, hw⟩
  | cons node nodes ih =>
    rw [recvPeers, List.forM_cons, wp_bind]
    cases husable : usable node with
    | false =>
      rw [List.filter_cons_of_neg (by simp [husable])]
      exact ih hks hw
    | true =>
      have hsave := savePeer_spec hok (arms_scanRefresh hok fuel) (address_endpoint node) hks hw
      rw [List.filter_cons_of_pos husable, List.foldl_cons, if_pos rfl, wp_bind]
      refine wp_mono hsave ?_ fun _ he => he
      rintro _ t ⟨hkeys, harmed⟩
      rw [wp_pure]
      have hkeyed : Keyed t.keys := hkeys ▸ hks.learn (address_endpoint node)
      refine wp_mono (ih hkeyed harmed) ?_ fun _ he => he
      rintro _ u ⟨hrest, hkeyed', hsub, harmed'⟩
      refine ⟨hkeys ▸ hrest, hkeyed', List.Subset.trans ?_ hsub, harmed'⟩
      exact hkeys ▸ subset_learn _ _

lemma keeps_policyEnforce (p : Pool) (hks : Keyed p.world.keys) (hgrows : ks ⊆ p.world.keys) (a : Prop)
    (ha : a → Armed p.world) :
    wp (policyEnforce env fuel) (fun _ q => Keyed q.world.keys ∧ ks ⊆ q.world.keys ∧ (a → Armed q.world) ∧
      ∃ n, q.mPolicyTimer = some (some (env.universalTime n + POLICY_INTERVAL_SECONDS))) Sound p := by
  rw [policyEnforce, wp_bind, wp_modify, wp_bind, wp_onWorld]
  have hpolicy : wp (policyLowWater env (scanRefresh env fuel) fuel) (fun _ => Kept p.world.keys a) NoFault p.world :=
    keeps_policyLowWater (arms_scanRefresh hok fuel) hks fuel p.world ⟨rfl, ha⟩
  refine wp_mono hpolicy ?_ fun _ he => NoFault.sound he
  intro _ w hw
  rw [wp_bind, wp_onWorld, wp_universalTime, wp_modify]
  have htime := (beside_kept p.world.keys a).readings w (w.readings + 1) hw
  refine ⟨?_, ?_, htime.2, w.readings, rfl⟩
  · exact htime.1.symm ▸ hks
  · exact htime.1.symm ▸ hgrows

omit hok in
lemma keeps_handler {enforce : Program Pool Stop PUnit} (h : Keeps (Inv env ks) Sound enforce) (ecResult : Wait) :
    Keeps (Inv env ks) Sound (handler enforce ecResult) := by
  cases ecResult with
  | success => exact h
  | aborted => exact keeps_pure _
  | error => exact keeps_throw fun _ he => (Stop.fault.inj he).symm

/-- **Every event** keeps the invariant. -/
lemma keeps_event {e : Event} (he : e.Proper) : Keeps (Inv env ks) Sound (e.run env fuel) := by
  have hrefresh := arms_scanRefresh hok fuel
  have henforce : Keeps (Inv env ks) Sound (policyEnforce env fuel) := by
    intro p hp
    refine wp_mono (keeps_policyEnforce hok p hp.keyed hp.grows True fun _ => hp.armed) ?_ fun _ he => he
    exact fun _ q hq => ⟨hq.1, hq.2.1, hq.2.2.1 trivial, hq.2.2.2⟩
  have hsilent (ks' : List Bytes) := beside_kept ks' True
  cases e with
  | policyEnforce => exact henforce
  | policyHandler ecResult => exact keeps_handler henforce ecResult
  | scanHandler ecResult => exact keeps_handler (keeps_onWorld fun _ hks => hrefresh.keeps hks) ecResult
  | recvPeers nodes =>
    refine keeps_entering fun w hks hw => wp_mono (recvPeers_spec hok nodes hks hw) ?_ fun _ he => he
    exact fun _ t ht => ht.2
  | op o =>
    cases o with
    | peerConnect pip =>
      exact keeps_onWorld fun _ hks => keeps_bind (keeps_peerConnect hrefresh hks pip) fun _ => keeps_pure _
    | peerConnected peer naPeer pip =>
      exact keeps_onWorld fun ks' _ =>
        keeps_bind ((hsilent ks').keeps_peerConnected noFault_deadlock peer naPeer pip) fun _ => keeps_pure _
    | peerDisconnected peer naPeer =>
      exact keeps_onWorld fun ks' _ => (hsilent ks').keeps_peerDisconnected noFault_deadlock peer naPeer
    | peerClosed peer pip => exact keeps_onWorld fun _ hks => keeps_peerClosed hrefresh hks peer pip
    | peerVerified peer => exact keeps_onWorld fun _ hks => keeps_peerVerified hrefresh hks peer
    | peerAvailable =>
      exact keeps_onWorld fun _ hks => keeps_bind (keeps_peerAvailable hks) fun _ => keeps_pure _
    | policyLowWater => exact keeps_onWorld fun _ hks => keeps_policyLowWater hrefresh hks fuel
    | scanRefresh => exact keeps_onWorld fun _ hks => hrefresh.keeps hks
    | relayMessage fromPeer msg =>
      exact keeps_onWorld fun ks' _ => (hsilent ks').keeps_relayMessage noFault_deadlock fromPeer msg
    | getPeerVector =>
      exact keeps_onWorld fun ks' _ =>
        keeps_bind ((hsilent ks').keeps_getPeerVector noFault_deadlock) fun _ => keeps_pure _
    | savePeer pip =>
      refine keeps_entering fun w hks hw => ?_
      rw [Op.run, wp_bind]
      refine wp_mono (savePeer_spec hok hrefresh he hks hw) ?_ fun _ he => he
      exact fun _ t ht => ⟨ht.1 ▸ hks.learn he, ht.1 ▸ subset_learn _ _, ht.2⟩
    | connectTo pip =>
      refine keeps_entering fun w hks _ => wp_mono (connectTo_spec hok hrefresh he hks) ?_ fun _ he => he
      rintro _ t ⟨hkeys, hkeyed, harmed⟩
      refine ⟨hkeyed, fun k hk => ?_, harmed⟩
      rw [hkeys, List.mem_append, List.mem_filter, List.mem_singleton]
      by_cases heq : k = ipPortText pip
      · exact Or.inr heq
      · exact Or.inl ⟨hk, decide_eq_true heq⟩
    | table rows => exact he.elim
    | accept =>
      exact keeps_onWorld fun ks' _ => keeps_bind ((hsilent ks').keeps_createPeer _) fun _ => keeps_pure _
    | connected peer naPeer => exact keeps_onWorld fun _ hks => keeps_connected hrefresh hks peer naPeer
    | detach peer => exact keeps_onWorld fun _ hks => keeps_detach hrefresh hks peer
    | other peer mHelloed mReadbuf mSendQ mSendingPacket =>
      exact keeps_onWorld fun ks' _ => keeps_modify fun w hw => (hsilent ks').setPeer w peer _ hw

/-- `start` sets the timers, whatever they were. -/
lemma start_spec {p : Pool} (hks : Keyed p.world.keys) :
    wp (start env fuel) (fun _ => Inv env p.world.keys) Sound p := by
  rw [start, wp_bind]
  refine wp_mono (keeps_policyEnforce hok p hks (List.Subset.refl _) False False.elim) ?_ fun _ he => he
  rintro _ q ⟨hkeyed, hgrows, _, hpolicy⟩
  rw [wp_onWorld]
  refine wp_mono (arms_scanRefresh hok fuel q.world hkeyed) ?_ fun _ he => NoFault.sound he
  exact fun _ w hw => ⟨hw.1 ▸ hkeyed, hw.1 ▸ hgrows, hw.2, hpolicy⟩

lemma run_spec {p : Pool} (hks : Keyed p.world.keys) {events : List Event} (hproper : ∀ e ∈ events, e.Proper) :
    wp (run env fuel events) (fun _ => Inv env p.world.keys) Sound p := by
  rw [run, wp_bind]
  refine wp_mono (start_spec hok hks) ?_ fun _ he => he
  exact fun _ q hq => keeps_forM (fun e he => keeps_event hok (hproper e he)) q hq

omit hok

lemma exists_of_isOk {α : Type} {r : Except Stop α} (h : r.isOk = true) : ∃ a, r = .ok a := by
  cases r with
  | ok a => exact ⟨a, rfl⟩
  | error e => cases h

/-- An empty table, one address saved, and the policy enforced again. -/
def savedRun : Except Stop (PUnit × Pool) :=
  run sampleEnv 3 [.op (.savePeer ([49], 5)), .policyHandler .success] ⟨World.init [], none⟩

/-- What stands before the first dot, and behind it. -/
lemma dotted_inj {x y : ℤ} {s t : Bytes} (h : decimal x ++ 46 :: s = decimal y ++ 46 :: t) : x = y ∧ s = t := by
  have hdot (i : ℤ) : 46 ∉ decimal i := notMem_decimal (by decide) (by decide) i
  have hlonger {x y : ℤ} {s t text : Bytes} (hy : decimal y = decimal x ++ text) (hs : 46 :: s = text ++ 46 :: t) :
      x = y ∧ s = t := by
    cases text with
    | nil =>
      rw [List.append_nil] at hy
      exact ⟨(decimal_inj hy).symm, (List.cons.inj hs).2⟩
    | cons c text =>
      obtain rfl := (List.cons.inj hs).1
      exact absurd (hy ▸ List.mem_append_right _ List.mem_cons_self) (hdot y)
  rcases List.append_eq_append_iff.1 h with ⟨text, hy, hs⟩ | ⟨text, hx, ht⟩
  · exact hlonger hy hs
  · obtain ⟨hyx, hts⟩ := hlonger hx ht
    exact ⟨hyx.symm, hts.symm⟩

/-- **No two addresses have the same text.** -/
lemma inetNtoa_inj {a b : BitVec 32} (h : inetNtoa a = inetNtoa b) : a = b := by
  have ha := a.isLt
  have hb := b.isLt
  simp only [inetNtoa] at h
  obtain ⟨h0, h⟩ := dotted_inj h
  obtain ⟨h1, h⟩ := dotted_inj h
  obtain ⟨h2, h⟩ := dotted_inj h
  have h3 := decimal_inj h
  apply BitVec.eq_of_toNat_eq
  norm_num at h0 h1 h2 h3
  omega

/-- Of the addresses told, only 0.0.0.0 and 127.0.0.1 are passed over. -/
lemma usable_iff (node : TMIPv4EndPoint) : usable node = true ↔ node.ipv4 ≠ 0 ∧ node.ipv4 ≠ 0x0100007F := by
  have hany : inetNtoa 0 = cString "0.0.0.0" := by decide +kernel
  have hself : inetNtoa 0x0100007F = cString "127.0.0.1" := by decide +kernel
  rw [usable, endpoint, ← hany, ← hself, Bool.and_eq_true, bne_iff_ne, bne_iff_ne]
  have htext (a : BitVec 32) : inetNtoa node.ipv4 = inetNtoa a ↔ node.ipv4 = a := ⟨inetNtoa_inj, fun h => h ▸ rfl⟩
  exact and_congr (not_congr (htext 0)) (not_congr (htext 0x0100007F))

/-- Keys are only added behind those there are. -/
lemma foldl_learn (nodes : List TMIPv4EndPoint) (ks : List Bytes) :
    let ks' := nodes.foldl (fun ks node => learn (ipPortText (endpoint node)) ks) ks
    ks <+: ks' ∧ ∀ k, k ∈ ks' ↔ k ∈ ks ∨ ∃ node ∈ nodes, k = ipPortText (endpoint node) := by
  induction nodes generalizing ks with
  | nil => simp
  | cons node nodes ih =>
    obtain ⟨hgrows, hmem⟩ := ih (learn (ipPortText (endpoint node)) ks)
    have hlearn : ks <+: learn (ipPortText (endpoint node)) ks ∧
        ∀ k, k ∈ learn (ipPortText (endpoint node)) ks ↔ k ∈ ks ∨ k = ipPortText (endpoint node) := by
      by_cases h : ipPortText (endpoint node) ∈ ks
      · rw [learn_of_mem h]
        refine ⟨List.prefix_rfl, fun k => ⟨Or.inl, ?_⟩⟩
        rintro (hk | rfl)
        · exact hk
        · exact h
      · rw [learn_of_notMem h]
        exact ⟨List.prefix_append _ _, fun k => by simp⟩
    refine ⟨hlearn.1.trans hgrows, fun k => ?_⟩
    rw [List.foldl_cons, hmem, hlearn.2, or_assoc]
    simp

end Newcoin.ConnectionPool.Service
