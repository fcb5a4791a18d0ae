import Newcoin.Lib.BigEndian
import Newcoin.NewcoinAddress

/-!
# `Peer`

The members of a peer that its reading, its writing and its detaching work on.  A call returns the peer
after it and what it asks of others meanwhile: asynchronous operations, calls on the pool, a message
handed on.  The verify timer and the shutdown of the socket are left out.
-/

namespace Newcoin

open Lib

/-- `HEADER_SIZE`. -/
def HEADER_SIZE : ℕ := 6

/-- A `PackedMessage` by its buffer. -/
structure PackedMessage where
  mBuffer : Bytes
  deriving DecidableEq, Repr

namespace PackedMessage

/-- `encodeHeader`: the size in four bytes, the type in two. -/
def encodeHeader (size : BitVec 32) (type : BitVec 32) : Bytes := shiftOut 4 size ++ shiftOut 2 type

/-- The constructor; a protocol buffers message is the bytes it serializes to. -/
def pack (message : Bytes) (type : ℕ) : PackedMessage :=
  ⟨encodeHeader (BitVec.ofNat 32 message.length) (BitVec.ofNat 32 type) ++ message⟩

/-- `getLength`: shifted into an `int`, returned as `unsigned`; both are the same 32 bits. -/
def getLength (buf : Bytes) : ℕ :=
  if buf.length < HEADER_SIZE then 0 else (shiftIn 32 (buf.take 4)).toNat

/-- `getType`: two bytes in an `int`. -/
def getType (buf : Bytes) : ℕ :=
  if buf.length < HEADER_SIZE then 0 else (shiftIn 32 ((buf.drop 4).take 2)).toNat

end PackedMessage

/-- `ipPort`. -/
abbrev IpPort := Bytes × ℤ

structure Peer where
  /-- Whether the pointer to the pool is set. -/
  mConnectionPool : Bool
  mHelloed : Bool
  mDetaching : Bool
  /-- The key, if it is a valid one. -/
  mNodePublic : Option NewcoinAddress
  mIpPort : IpPort
  mReadbuf : Bytes
  mSendQ : List PackedMessage
  mSendingPacket : Option PackedMessage
  deriving DecidableEq, Repr

namespace Peer

/-- The handlers that `async_read` is given. -/
inductive ReadHandler
  | readHeader
  | readBody
  deriving DecidableEq, Repr

/-- What a call asks of others. -/
inductive Effect
  | asyncWrite (packet : PackedMessage)
  /-- `async_read` into the last `n` bytes of `mReadbuf`. -/
  | asyncRead (n : ℕ) (handler : ReadHandler)
  /-- `processReadBuffer`. -/
  | message (type : ℕ) (body : Bytes)
  | peerDisconnected (naPeer : NewcoinAddress)
  | peerClosed (ipPort : IpPort)
  deriving DecidableEq, Repr

/-- `create`. -/
def create (mConnectionPool : Bool) : Peer :=
  { mConnectionPool, mHelloed := false, mDetaching := false, mNodePublic := none, mIpPort := ([], 0), mReadbuf := [],
    mSendQ := [], mSendingPacket := none }

/-- `detach`.  The calls on the pool come before the member in question is cleared; the pool does not
look at it meanwhile. -/
def detach (p : Peer) : Peer × List Effect :=
  if p.mDetaching then (p, [])
  else
    ({ p with mDetaching := true, mSendQ := [], mNodePublic := none, mIpPort := ([], p.mIpPort.2) },
      p.mNodePublic.toList.map Effect.peerDisconnected ++
        if p.mIpPort.1 ≠ [] then [.peerClosed p.mIpPort] else [])

lemma detach_of_live {p : Peer} (h : p.mDetaching = false) :
    p.detach.2 = p.mNodePublic.toList.map Effect.peerDisconnected ++
      if p.mIpPort.1 ≠ [] then [.peerClosed p.mIpPort] else [] := by
  rw [detach, h]
  rfl

lemma detach_detaching (p : Peer) : p.detach.1.mDetaching = true := by
  unfold detach
  split_ifs with h
  · exact h
  · rfl
  · rfl

lemma detach_sendingPacket (p : Peer) : p.detach.1.mSendingPacket = p.mSendingPacket := by
  unfold detach
  split_ifs <;> rfl

/-- It only calls the pool. -/
lemma mem_detach {p : Peer} {e : Effect} (h : e ∈ p.detach.2) :
    (∃ naPeer, e = .peerDisconnected naPeer) ∨ ∃ ipPort, e = .peerClosed ipPort := by
  unfold detach at h
  split_ifs at h with hd hip
  · cases h
  · rcases List.mem_append.mp h with h | h
    · obtain ⟨naPeer, _, rfl⟩ := List.mem_map.mp h
      exact Or.inl ⟨naPeer, rfl⟩
    · exact Or.inr ⟨p.mIpPort, List.mem_singleton.mp h⟩
  · rw [List.append_nil] at h
    obtain ⟨naPeer, _, rfl⟩ := List.mem_map.mp h
    exact Or.inl ⟨naPeer, rfl⟩

/-! ### Writing -/

def sendPacketForce (packet : PackedMessage) (p : Peer) : Peer × List Effect :=
  if p.mDetaching then (p, []) else ({ p with mSendingPacket := some packet }, [.asyncWrite packet])

/-- `sendPacket`, of a pointer that may be null. -/
def sendPacket (packet : Option PackedMessage) (p : Peer) : Peer × List Effect :=
  match packet with
  | none => (p, [])
  | some packet =>
    if p.mSendingPacket.isSome then ({ p with mSendQ := p.mSendQ ++ [packet] }, [])
    else p.sendPacketForce packet

/-- A packet changes nothing the pool looks at. -/
lemma sendPacket_frame (packet : Option PackedMessage) (p : Peer) :
    (p.sendPacket packet).1.mDetaching = p.mDetaching ∧ (p.sendPacket packet).1.mIpPort = p.mIpPort ∧
      (p.sendPacket packet).1.mNodePublic = p.mNodePublic := by
  cases packet with
  | none => exact ⟨rfl, rfl, rfl⟩
  | some packet =>
    unfold sendPacket sendPacketForce
    simp only
    split_ifs <;> exact ⟨rfl, rfl, rfl⟩

lemma sendPacket_pool (packet : Option PackedMessage) (p : Peer) :
    (p.sendPacket packet).1.mConnectionPool = p.mConnectionPool := by
  cases packet with
  | none => rfl
  | some packet =>
    unfold sendPacket sendPacketForce
    simp only
    split_ifs <;> rfl

/-- `handle_write`. -/
def handleWrite (error : ErrorCode) (p : Peer) : Peer × List Effect :=
  let p := { p with mSendingPacket := none }
  if p.mDetaching then (p, [])
  else if error ≠ .success then p.detach
  else
    match p.mSendQ with
    | [] => (p, [])
    | packet :: _ =>
      let r := p.sendPacketForce packet
      ({ r.1 with mSendQ := r.1.mSendQ.tail }, r.2)

/-! ### Reading -/

/-- `start_read_header`. -/
def startReadHeader (p : Peer) : Peer × List Effect :=
  if p.mDetaching then (p, [])
  else ({ p with mReadbuf := List.replicate HEADER_SIZE 0 }, [.asyncRead HEADER_SIZE .readHeader])

/-- `start_read_body`. -/
def startReadBody (msgLen : ℕ) (p : Peer) : Peer × List Effect :=
  if p.mDetaching then (p, [])
  else
    ({ p with mReadbuf := p.mReadbuf.takeD (HEADER_SIZE + msgLen) 0 }, [.asyncRead msgLen .readBody])

/-- `handle_read_header`. -/
def handleReadHeader (error : ErrorCode) (p : Peer) : Peer × List Effect :=
  if p.mDetaching then (p, [])
  else if error = .success then
    let msgLen := PackedMessage.getLength p.mReadbuf
    if msgLen > 32 * 1024 * 1024 then p.detach else p.startReadBody msgLen
  else p.detach

/-- `mtHELLO`. -/
def mtHELLO : ℕ := 1

/-- `processReadBuffer`; `recv` is the parse of the body and the `recv…` of the type. -/
def processReadBuffer (recv : ℕ → Bytes → Peer → Peer × List Effect) (p : Peer) : Peer × List Effect :=
  let type := PackedMessage.getType p.mReadbuf
  let body := p.mReadbuf.drop HEADER_SIZE
  let r := if p.mHelloed = decide (type = mtHELLO) then p.detach else recv type body p
  (r.1, .message type body :: r.2)

/-- `handle_read_body`. -/
def handleReadBody (recv : ℕ → Bytes → Peer → Peer × List Effect) (error : ErrorCode) (p : Peer) :
    Peer × List Effect :=
  if p.mDetaching then (p, [])
  else if error = .success then
    let r := p.processReadBuffer recv
    let r' := r.1.startReadHeader
    (r'.1, r.2 ++ r'.2)
  else p.detach

/-! ### Connecting -/

/-- `handleVerifyTimer`, of a timer that was cancelled or has expired: any other code ends the process. -/
def handleVerifyTimer (expired : Bool) (p : Peer) : Peer × List Effect :=
  if expired then p.detach else (p, [])

/-- `handleConnect`; that it starts the handshake is left out. -/
def handleConnect (error : ErrorCode) (p : Peer) : Peer × List Effect :=
  if error ≠ .success then p.detach else (p, [])

/-- `handleStart`; `hello` is the packet that `sendHello` sends. -/
def handleStart (hello : Option PackedMessage) (error : ErrorCode) (p : Peer) : Peer × List Effect :=
  if error ≠ .success then p.detach
  else
    let r := p.sendPacket hello
    let r' := r.1.startReadHeader
    (r'.1, r.2 ++ r'.2)

end Peer

end Newcoin
