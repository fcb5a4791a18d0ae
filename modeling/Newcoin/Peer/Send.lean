import Newcoin.Peer.Defs
import Mathlib.Logic.Relation

/-!
# Outgoing packets

A peer with the writes it has in flight, under any interleaving of `sendPacket`, write completions,
`detach` and whatever else changes its other members.  `Inv` is what every step preserves;
`sends_in_order` collects what follows.
-/

namespace Newcoin.Peer.Send

/-- A peer, its writes, and the packets given to it. -/
structure Link where
  peer : Peer
  /-- Calls of `async_write` whose handler has not run. -/
  outstanding : ℕ
  /-- Packets passed to `async_write`. -/
  started : List PackedMessage
  /-- Packets given to `sendPacket`. -/
  submitted : List PackedMessage
  deriving DecidableEq, Repr

inductive Event
  | sendPacket (packet : Option PackedMessage)
  | handleWrite (error : ErrorCode)
  | detach
  /-- The other members change. -/
  | other (mHelloed : Bool) (mNodePublic : Option NewcoinAddress) (mIpPort : IpPort) (mReadbuf : Bytes)
  deriving DecidableEq, Repr

/-- The packets that a call starts to write. -/
def writes (effects : List Effect) : List PackedMessage :=
  effects.filterMap fun e => match e with
    | .asyncWrite packet => some packet
    | _ => none

/-- A call returns, and its writes are in flight. -/
def Link.after (s : Link) (r : Peer × List Effect) : Link :=
  { s with
    peer := r.1
    outstanding := s.outstanding + (writes r.2).length
    started := s.started ++ writes r.2 }

/-- A completion needs a write in flight. -/
def step (s : Link) : Event → Option Link
  | .sendPacket packet =>
    some ({ s with submitted := s.submitted ++ packet.toList }.after (s.peer.sendPacket packet))
  | .handleWrite error =>
    if 0 < s.outstanding then
      some ({ s with outstanding := s.outstanding - 1 }.after (s.peer.handleWrite error))
    else none
  | .detach => some (s.after s.peer.detach)
  | .other mHelloed mNodePublic mIpPort mReadbuf =>
    some { s with peer := { s.peer with mHelloed, mNodePublic, mIpPort, mReadbuf } }

/-- A new peer. -/
def init (mConnectionPool : Bool) : Link := ⟨create mConnectionPool, 0, [], []⟩

def Step (s t : Link) : Prop := ∃ e, step s e = some t

def Reachable (s : Link) : Prop := ∃ mConnectionPool, Relation.ReflTransGen Step (init mConnectionPool) s

/-! ### What the calls write -/

lemma writes_detach (p : Peer) : writes p.detach.2 = [] := by
  apply List.filterMap_eq_nil_iff.mpr
  intro e he
  rcases mem_detach he with ⟨_, rfl⟩ | ⟨_, rfl⟩ <;> rfl

/-- A packet is queued behind the one being written, is written at once, or is dropped by a peer that
detaches. -/
lemma sendPacket_cases (p : Peer) (packet : PackedMessage) :
    (p.mSendingPacket.isSome = true ∧
      p.sendPacket (some packet) = ({ p with mSendQ := p.mSendQ ++ [packet] }, [])) ∨
    (p.mSendingPacket = none ∧ p.mDetaching = false ∧
      p.sendPacket (some packet) = ({ p with mSendingPacket := some packet }, [.asyncWrite packet])) ∨
    (p.mDetaching = true ∧ p.sendPacket (some packet) = (p, [])) := by
  unfold Peer.sendPacket Peer.sendPacketForce
  cases hs : p.mSendingPacket with
  | some sending => exact Or.inl ⟨rfl, if_pos rfl⟩
  | none =>
    cases hd : p.mDetaching with
    | true => exact Or.inr (Or.inr ⟨rfl, rfl⟩)
    | false => exact Or.inr (Or.inl ⟨rfl, rfl, rfl⟩)

/-- A completion leaves the peer idle and detaching, or idle with nothing queued, or writing the head of
its queue. -/
lemma handleWrite_cases (p : Peer) (error : ErrorCode) :
    ((p.handleWrite error).1.mDetaching = true ∧ (p.handleWrite error).1.mSendingPacket = none ∧
      writes (p.handleWrite error).2 = []) ∨
    (p.mDetaching = false ∧ p.mSendQ = [] ∧
      p.handleWrite error = ({ p with mSendingPacket := none }, [])) ∨
    ∃ packet rest, p.mDetaching = false ∧ p.mSendQ = packet :: rest ∧
      p.handleWrite error =
        ({ p with mSendingPacket := some packet, mSendQ := rest }, [.asyncWrite packet]) := by
  by_cases hd : p.mDetaching = true
  · have hcall : p.handleWrite error = ({ p with mSendingPacket := none }, []) := by
      simp [Peer.handleWrite, hd]
    exact Or.inl (by rw [hcall]; exact ⟨hd, rfl, rfl⟩)
  rw [Bool.not_eq_true] at hd
  by_cases herror : error = .success
  · by_cases hq : p.mSendQ = []
    · have hcall : p.handleWrite error = ({ p with mSendingPacket := none }, []) := by
        simp [Peer.handleWrite, hd, herror, hq]
      exact Or.inr (Or.inl ⟨hd, hq, hcall⟩)
    · obtain ⟨packet, rest, hq⟩ := List.exists_cons_of_ne_nil hq
      have hcall : p.handleWrite error =
          ({ p with mSendingPacket := some packet, mSendQ := rest }, [.asyncWrite packet]) := by
        simp [Peer.handleWrite, Peer.sendPacketForce, hd, herror, hq]
      exact Or.inr (Or.inr ⟨packet, rest, hd, hq, hcall⟩)
  · have hcall : p.handleWrite error = { p with mSendingPacket := none }.detach := by
      simp [Peer.handleWrite, hd, herror]
    rw [hcall]
    exact Or.inl ⟨detach_detaching _, detach_sendingPacket _, writes_detach _⟩

/-! ### The invariant -/

/-- **The invariant.**  A write is in flight exactly while `mSendingPacket` is set; what was started is
the beginning of what was submitted; until the peer detaches, the queue is the rest, and it waits for a
write. -/
structure Inv (s : Link) : Prop where
  single : s.outstanding = if s.peer.mSendingPacket.isSome then 1 else 0
  prefixed : s.started <+: s.submitted
  queue : s.peer.mDetaching = false → s.started ++ s.peer.mSendQ = s.submitted
  waits : s.peer.mDetaching = false → s.peer.mSendQ ≠ [] → s.peer.mSendingPacket.isSome = true

lemma inv_init (mConnectionPool : Bool) : Inv (init mConnectionPool) :=
  ⟨rfl, List.prefix_rfl, fun _ => rfl, fun _ h => absurd rfl h⟩

/-- Of a peer that detaches only the first two are left. -/
lemma inv_of_detaching {s : Link} (hd : s.peer.mDetaching = true)
    (single : s.outstanding = if s.peer.mSendingPacket.isSome then 1 else 0)
    (prefixed : s.started <+: s.submitted) : Inv s :=
  ⟨single, prefixed, fun h => absurd (hd.symm.trans h) (by decide),
    fun h => absurd (hd.symm.trans h) (by decide)⟩

/-- Without a write in flight nothing is queued. -/
lemma Inv.idle {s : Link} (h : Inv s) (hd : s.peer.mDetaching = false)
    (hs : s.peer.mSendingPacket = none) : s.peer.mSendQ = [] := by
  by_contra hq
  have hsome := h.waits hd hq
  rw [hs] at hsome
  exact absurd hsome (by decide)

lemma inv_detach {s : Link} (h : Inv s) : Inv (s.after s.peer.detach) := by
  refine inv_of_detaching (detach_detaching _) ?_ ?_
  · simp only [Link.after, writes_detach, detach_sendingPacket, List.length_nil, Nat.add_zero]
    exact h.single
  · simp only [Link.after, writes_detach, List.append_nil]
    exact h.prefixed

lemma inv_sendPacket {s : Link} (h : Inv s) (packet : PackedMessage) :
    Inv ({ s with submitted := s.submitted ++ [packet] }.after (s.peer.sendPacket (some packet))) := by
  have hprefix : s.started <+: s.submitted ++ [packet] :=
    h.prefixed.trans (List.prefix_append _ _)
  rcases sendPacket_cases s.peer packet with ⟨hs, hcall⟩ | ⟨hs, hd, hcall⟩ | ⟨hd, hcall⟩
  · rw [hcall]
    refine ⟨h.single, by simpa [Link.after, writes] using hprefix, ?_, fun _ _ => hs⟩
    intro hd
    simp only [Link.after, writes, List.filterMap_nil, List.append_nil]
    rw [← List.append_assoc, h.queue hd]
  · have hidle := h.idle hd hs
    have hall : s.started = s.submitted := by
      have hqueue := h.queue hd
      rwa [hidle, List.append_nil] at hqueue
    have hnone : s.outstanding = 0 := by
      have hsingle := h.single
      rwa [hs] at hsingle
    rw [hcall]
    refine ⟨?_, ?_, ?_, fun _ _ => rfl⟩
    · simp [Link.after, writes, hnone]
    · simp [Link.after, writes, hall]
    · intro _
      simp [Link.after, writes, hall, hidle]
  · rw [hcall]
    exact inv_of_detaching hd h.single (by simpa [Link.after, writes] using hprefix)

lemma inv_handleWrite {s : Link} (h : Inv s) (hone : 0 < s.outstanding) (error : ErrorCode) :
    Inv ({ s with outstanding := s.outstanding - 1 }.after (s.peer.handleWrite error)) := by
  have hlast : s.outstanding - 1 = 0 := by
    have hsingle := h.single
    split_ifs at hsingle <;> omega
  rcases handleWrite_cases s.peer error with ⟨hd, hs, hw⟩ | ⟨hd, hq, hcall⟩ | ⟨packet, rest, hd, hq, hcall⟩
  · refine inv_of_detaching hd ?_ ?_
    · simp [Link.after, hw, hs, hlast]
    · simpa [Link.after, hw] using h.prefixed
  · have hqueue := h.queue hd
    rw [hcall]
    refine ⟨by simp [Link.after, writes, hlast], by simpa [Link.after, writes] using h.prefixed,
      fun _ => by simpa [Link.after, writes] using hqueue, fun _ hne => absurd hq hne⟩
  · have hqueue := h.queue hd
    rw [hq] at hqueue
    rw [hcall]
    refine ⟨by simp [Link.after, writes, hlast], ⟨rest, ?_⟩, fun _ => ?_, fun _ _ => rfl⟩
    · simpa [Link.after, writes] using hqueue
    · simpa [Link.after, writes] using hqueue

lemma inv_step {s t : Link} (h : Inv s) (hstep : Step s t) : Inv t := by
  obtain ⟨e, hstep⟩ := hstep
  cases e with
  | sendPacket packet =>
    obtain rfl := Option.some.inj hstep
    cases packet with
    | none => simpa [Link.after, writes, Peer.sendPacket] using h
    | some packet => exact inv_sendPacket h packet
  | handleWrite error =>
    rw [step] at hstep
    split_ifs at hstep with hone
    obtain rfl := Option.some.inj hstep
    exact inv_handleWrite h hone error
  | detach =>
    obtain rfl := Option.some.inj hstep
    exact inv_detach h
  | other mHelloed mNodePublic mIpPort mReadbuf =>
    obtain rfl := Option.some.inj hstep
    exact ⟨h.single, h.prefixed, h.queue, h.waits⟩

lemma inv_reachable {s : Link} (h : Reachable s) : Inv s := by
  obtain ⟨mConnectionPool, hrun⟩ := h
  induction hrun with
  | refl => exact inv_init mConnectionPool
  | tail _ hstep ih => exact inv_step ih hstep

/-! ### After `detach` -/

/-- Nothing is written any more, and the peer stays so. -/
lemma quiet_step {s t : Link} (hd : s.peer.mDetaching = true) (hstep : Step s t) :
    t.peer.mDetaching = true ∧ t.started = s.started := by
  obtain ⟨e, hstep⟩ := hstep
  cases e with
  | sendPacket packet =>
    obtain rfl := Option.some.inj hstep
    cases packet with
    | none => exact ⟨hd, List.append_nil _⟩
    | some packet =>
      rcases sendPacket_cases s.peer packet with ⟨_, hcall⟩ | ⟨_, hd', _⟩ | ⟨_, hcall⟩
      · rw [hcall]
        exact ⟨hd, List.append_nil _⟩
      · exact absurd (hd.symm.trans hd') (by decide)
      · rw [hcall]
        exact ⟨hd, List.append_nil _⟩
  | handleWrite error =>
    rw [step] at hstep
    split_ifs at hstep
    obtain rfl := Option.some.inj hstep
    rcases handleWrite_cases s.peer error with ⟨hd', _, hw⟩ | ⟨hd', _⟩ | ⟨_, _, hd', _⟩
    · refine ⟨hd', ?_⟩
      simp only [Link.after, hw, List.append_nil]
    · exact absurd (hd.symm.trans hd') (by decide)
    · exact absurd (hd.symm.trans hd') (by decide)
  | detach =>
    obtain rfl := Option.some.inj hstep
    refine ⟨detach_detaching _, ?_⟩
    simp only [Link.after, writes_detach, List.append_nil]
  | other mHelloed mNodePublic mIpPort mReadbuf =>
    obtain rfl := Option.some.inj hstep
    exact ⟨hd, rfl⟩

lemma quiet_run {s t : Link} (hd : s.peer.mDetaching = true) (hrun : Relation.ReflTransGen Step s t) :
    t.peer.mDetaching = true ∧ t.started = s.started := by
  induction hrun with
  | refl => exact ⟨hd, rfl⟩
  | tail _ hstep ih =>
    obtain ⟨hd', hstarted⟩ := quiet_step ih.1 hstep
    exact ⟨hd', hstarted.trans ih.2⟩

/-- **Outgoing packets are sent in order, none lost or duplicated**: at most one write is in flight; the
packets written so far are the first of those submitted; until the peer detaches, the queue is exactly
the rest of them and waits for a write; and afterwards no write is started. -/
theorem sends_in_order {s : Link} (h : Reachable s) :
    s.outstanding ≤ 1 ∧ s.started <+: s.submitted ∧
    (s.peer.mDetaching = false →
      s.started ++ s.peer.mSendQ = s.submitted ∧ (s.peer.mSendQ ≠ [] → s.outstanding = 1)) ∧
    (s.peer.mDetaching = true → ∀ t, Relation.ReflTransGen Step s t → t.started = s.started) := by
  have hinv := inv_reachable h
  refine ⟨?_, hinv.prefixed, fun hd => ⟨hinv.queue hd, fun hq => ?_⟩,
    fun hd t hrun => (quiet_run hd hrun).2⟩
  · rw [hinv.single]
    split_ifs <;> omega
  · rw [hinv.single, if_pos (hinv.waits hd hq)]

/-- Two packets submitted, the second behind the first; the first written. -/
theorem sends_in_order_two :
    ∃ s : Link, Reachable s ∧ s.started.length = 2 ∧ s.peer.mSendQ = [] ∧ s.outstanding ≤ 1 := by
  let a := PackedMessage.pack [1] 3
  let b := PackedMessage.pack [2] 4
  have h : Reachable ⟨{ create true with mSendingPacket := some b }, 1, [a, b], [a, b]⟩ :=
    ⟨true, ((Relation.ReflTransGen.refl.tail ⟨.sendPacket (some a), rfl⟩).tail
      ⟨.sendPacket (some b), rfl⟩).tail ⟨.handleWrite .success, rfl⟩⟩
  exact ⟨_, h, rfl, rfl, (sends_in_order h).1⟩

end Newcoin.Peer.Send
