import Newcoin.Peer.Defs

/-!
# What ends a peer

A peer may end in `connect` and in six handlers, each time through `detach`.  A handler of a live peer that
has an address leaves it alive, with its address, or calls the pool (`Handler.outcome`).
-/

namespace Newcoin

namespace Peer

open Lib

/-- It calls the pool. -/
def Effect.CallsPool : Effect → Prop
  | .peerDisconnected _ => True
  | .peerClosed _ => True
  | _ => False

/-- What the end of a peer depends on. -/
structure SameEnd (p q : Peer) : Prop where
  pool : q.mConnectionPool = p.mConnectionPool
  detaching : q.mDetaching = p.mDetaching
  ipPort : q.mIpPort = p.mIpPort

/-- A call on a peer leaves all that alone, or calls the pool. -/
def Outcome (p : Peer) (r : Peer × List Effect) : Prop := SameEnd p r.1 ∨ ∃ e ∈ r.2, e.CallsPool

/-- The code behind a handler that is not part of the source, or parses messages. -/
structure Messages where
  hello : Option PackedMessage
  recv : ℕ → Bytes → Peer → Peer × List Effect
  /-- A message that ends a peer does so through `detach`. -/
  recv_outcome : ∀ type body p, p.mDetaching = false → p.mIpPort.1 ≠ [] → Outcome p (recv type body p)

/-- A handler and its arguments. -/
inductive Handler
  | verifyTimer (expired : Bool)
  | connect (error : ErrorCode)
  | start (error : ErrorCode)
  | write (error : ErrorCode)
  | readHeader (error : ErrorCode)
  | readBody (error : ErrorCode)

def Handler.run (ms : Messages) (p : Peer) : Handler → Peer × List Effect
  | .verifyTimer expired => p.handleVerifyTimer expired
  | .connect error => p.handleConnect error
  | .start error => p.handleStart ms.hello error
  | .write error => p.handleWrite error
  | .readHeader error => p.handleReadHeader error
  | .readBody error => p.handleReadBody ms.recv error

lemma SameEnd.trans {p q r : Peer} (h : SameEnd p q) (h' : SameEnd q r) : SameEnd p r :=
  ⟨h'.pool.trans h.pool, h'.detaching.trans h.detaching, h'.ipPort.trans h.ipPort⟩

lemma sendPacket_sameEnd (packet : Option PackedMessage) (p : Peer) : SameEnd p (p.sendPacket packet).1 := by
  obtain ⟨hd, hip, _⟩ := sendPacket_frame packet p
  exact ⟨sendPacket_pool packet p, hd, hip⟩

lemma startReadHeader_sameEnd (p : Peer) : SameEnd p p.startReadHeader.1 := by
  unfold startReadHeader
  split_ifs <;> exact ⟨rfl, rfl, rfl⟩

lemma startReadBody_sameEnd (msgLen : ℕ) (p : Peer) : SameEnd p (p.startReadBody msgLen).1 := by
  unfold startReadBody
  split_ifs <;> exact ⟨rfl, rfl, rfl⟩

/-- What is done next leaves it alone. -/
lemma Outcome.andThen {p : Peer} {r r' : Peer × List Effect} (h : Outcome p r) (h' : SameEnd r.1 r'.1) :
    Outcome p (r'.1, r.2 ++ r'.2) := by
  rcases h with hsame | ⟨e, he, hcalls⟩
  · exact Or.inl (hsame.trans h')
  · exact Or.inr ⟨e, List.mem_append_left _ he, hcalls⟩

section Outcomes

variable {p : Peer} (hd : p.mDetaching = false) (hip : p.mIpPort.1 ≠ [])
include hd hip

/-- `detach` calls the pool. -/
lemma detach_outcome {q : Peer} (hq : SameEnd p q) : Outcome p q.detach := by
  refine Or.inr ⟨.peerClosed q.mIpPort, ?_, trivial⟩
  rw [← hq.ipPort] at hip
  rw [detach_of_live (hq.detaching.trans hd), if_pos hip]
  exact List.mem_append_right _ List.mem_cons_self

lemma handleWrite_outcome (error : ErrorCode) : Outcome p (p.handleWrite error) := by
  have hsame : SameEnd p { p with mSendingPacket := none } := ⟨rfl, rfl, rfl⟩
  unfold handleWrite
  dsimp only
  rw [if_neg (ne_true_of_eq_false hd)]
  split_ifs with herror
  · exact detach_outcome hd hip hsame
  split
  · exact Or.inl hsame
  · unfold sendPacketForce
    split_ifs <;> exact Or.inl ⟨rfl, rfl, rfl⟩

lemma handleReadHeader_outcome (error : ErrorCode) : Outcome p (p.handleReadHeader error) := by
  have hsame : SameEnd p p := ⟨rfl, rfl, rfl⟩
  unfold handleReadHeader
  dsimp only
  rw [if_neg (ne_true_of_eq_false hd)]
  split_ifs
  · exact detach_outcome hd hip hsame
  · exact Or.inl (startReadBody_sameEnd _ p)
  · exact detach_outcome hd hip hsame

lemma processReadBuffer_outcome (ms : Messages) : Outcome p (p.processReadBuffer ms.recv) := by
  have hsame : SameEnd p p := ⟨rfl, rfl, rfl⟩
  unfold processReadBuffer
  dsimp only
  have hout : Outcome p (if p.mHelloed = decide (PackedMessage.getType p.mReadbuf = mtHELLO) then p.detach
      else ms.recv (PackedMessage.getType p.mReadbuf) (p.mReadbuf.drop HEADER_SIZE) p) := by
    split_ifs
    · exact detach_outcome hd hip hsame
    · exact ms.recv_outcome _ _ p hd hip
  rcases hout with hsame | ⟨e, he, hcalls⟩
  · exact Or.inl hsame
  · exact Or.inr ⟨e, List.mem_cons_of_mem _ he, hcalls⟩

/-- **Every handler** leaves a peer alive or calls the pool. -/
lemma Handler.outcome (ms : Messages) (handler : Handler) : Outcome p (handler.run ms p) := by
  have hsame : SameEnd p p := ⟨rfl, rfl, rfl⟩
  cases handler with
  | verifyTimer expired =>
    rw [Handler.run, handleVerifyTimer]
    split_ifs
    · exact detach_outcome hd hip hsame
    · exact Or.inl hsame
  | connect error =>
    rw [Handler.run, handleConnect]
    split_ifs
    · exact detach_outcome hd hip hsame
    · exact Or.inl hsame
  | start error =>
    rw [Handler.run, handleStart]
    split_ifs
    · exact detach_outcome hd hip hsame
    · exact Outcome.andThen (Or.inl (sendPacket_sameEnd _ p)) (startReadHeader_sameEnd _)
  | write error => exact handleWrite_outcome hd hip error
  | readHeader error => exact handleReadHeader_outcome hd hip error
  | readBody error =>
    rw [Handler.run, handleReadBody, if_neg (ne_true_of_eq_false hd)]
    split_ifs
    · exact Outcome.andThen (processReadBuffer_outcome hd hip ms) (startReadHeader_sameEnd _)
    · exact detach_outcome hd hip hsame

end Outcomes

end Peer

end Newcoin
