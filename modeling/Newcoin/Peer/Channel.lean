import Newcoin.Peer.Send
import Newcoin.Peer.Framing

/-!
# Two peers and the bytes between them

Both ends of a connection, each with its calls, its one write in flight, the bytes it has put on the wire
and its read loop, under any interleaving of the two and of the network.  An end is a `Send.Link` and a
`Framing.Reader` of one peer (`End.link`, `End.reader`); what its message handlers do is a list of acts
given as a parameter.

* `End.Inv`, `Inv` — what every step preserves.
* `channel_exact` — what is delivered at one end is the beginning of what the other sent.
* `channel_delivers` — and the network alone brings all of it, unless the receiver detaches.
-/

namespace Newcoin.Peer.Channel

open Framing Send Lib

/-! ### What an end does -/

/-- A message as it is sent. -/
def packed (m : Message) : PackedMessage := PackedMessage.pack m.2 m.1

/-- What the two fields of a header can hold. -/
def Framed (m : Message) : Prop := m.1 < 2 ^ 16 ∧ m.2.length < 2 ^ 32

instance : DecidablePred Fits := fun m => by unfold Fits; infer_instance

/-- A call on a peer from outside its read loop, or from a message handler. -/
inductive Act
  | send (m : { m : Message // Framed m })
  | detach
  /-- The other members change. -/
  | other (mHelloed : Bool) (mNodePublic : Option NewcoinAddress) (mIpPort : IpPort)
  deriving DecidableEq, Repr

def Act.run (p : Peer) : Act → Peer × List Effect
  | .send m => p.sendPacket (some (packed m.1))
  | .detach => p.detach
  | .other mHelloed mNodePublic mIpPort => ({ p with mHelloed, mNodePublic, mIpPort }, [])

/-- What it submits. -/
def Act.messages : Act → List Message
  | .send m => [m.1]
  | _ => []

lemma Act.framed {a : Act} {m : Message} (h : m ∈ a.messages) : Framed m := by
  cases a with
  | send m' =>
    obtain rfl := List.mem_singleton.mp h
    exact m'.2
  | detach => cases h
  | other => cases h

def runAll : List Act → Peer → Peer × List Effect
  | [], p => (p, [])
  | a :: as, p =>
    let r := a.run p
    let r' := runAll as r.1
    (r'.1, r.2 ++ r'.2)

/-- What the `recv…` of a message does. -/
abbrev Reaction := ℕ → Bytes → Peer → List Act

/-- One end.  Beside the peer, its writing as in `Send`, with the messages sent, and its reading as in
`Framing`. -/
structure End where
  peer : Peer
  outstanding : ℕ
  started : List PackedMessage
  sent : List Message
  /-- The bytes of the packets started that the network has taken. -/
  wire : Bytes
  pending : Option (ℕ × ReadHandler)
  received : Bytes
  unread : Bytes
  asked : List (ℕ × ReadHandler)
  delivered : List Message

namespace End

def link (e : End) : Link := ⟨e.peer, e.outstanding, e.started, e.sent.map packed⟩

def reader (e : End) : Reader := ⟨e.peer, e.pending, e.received, e.unread, e.asked, e.delivered⟩

/-- A call that submits `ms` returns. -/
def after (ms : List Message) (r : Peer × List Effect) (e : End) : End :=
  { e with
    peer := r.1
    outstanding := e.outstanding + (writes r.2).length
    started := e.started ++ writes r.2
    sent := e.sent ++ ms
    pending := (reads r.2).getLast?.or e.pending
    asked := e.asked ++ reads r.2
    delivered := e.delivered ++ messages r.2 }

end End

/-- The bytes of packets. -/
def buffers (packets : List PackedMessage) : Bytes := packets.flatMap PackedMessage.mBuffer

section Reading

variable (react : Reaction)

/-- What `processReadBuffer` does about the message in the buffer. -/
def answer (p : Peer) : List Act :=
  let type := PackedMessage.getType p.mReadbuf
  if p.mHelloed = decide (type = mtHELLO) then [.detach] else react type (p.mReadbuf.drop HEADER_SIZE) p

/-- What the handler of a read submits. -/
def submits (handler : ReadHandler) (error : ErrorCode) (p : Peer) : List Message :=
  match handler with
  | .readHeader => []
  | .readBody =>
    if p.mDetaching then [] else if error = .success then (answer react p).flatMap Act.messages else []

end Reading

/-! ### Calls -/

/-- A call that submits `ms` keeps what `Send` says, and never takes `mDetaching` back. -/
structure Call (p : Peer) (ms : List Message) (r : Peer × List Effect) : Prop where
  link : ∀ s : Link, s.peer = p → Send.Inv s →
    Send.Inv ({ s with submitted := s.submitted ++ ms.map packed }.after r)
  stays : p.mDetaching = true → r.1.mDetaching = true

/-- It neither reads nor hands a message on. -/
structure Quiet (p : Peer) (r : Peer × List Effect) : Prop where
  reads : reads r.2 = []
  messages : messages r.2 = []
  readbuf : r.1.mReadbuf = p.mReadbuf

lemma writes_append (a b : List Effect) : writes (a ++ b) = writes a ++ writes b := List.filterMap_append

lemma mem_reads {effects : List Effect} {n : ℕ} {handler : ReadHandler} (h : .asyncRead n handler ∈ effects) :
    (n, handler) ∈ reads effects := List.mem_filterMap.mpr ⟨_, h, rfl⟩

lemma mem_messages {effects : List Effect} {type : ℕ} {body : Bytes} (h : .message type body ∈ effects) :
    (type, body) ∈ messages effects := List.mem_filterMap.mpr ⟨_, h, rfl⟩

namespace Call

/-- Members that `Send` does not look at change. -/
lemma silent {p q : Peer} {effects : List Effect} (hd : q.mDetaching = p.mDetaching) (hq : q.mSendQ = p.mSendQ)
    (hs : q.mSendingPacket = p.mSendingPacket) (heffects : writes effects = []) : Call p [] (q, effects) := by
  refine ⟨?_, fun h => hd.trans h⟩
  rintro s rfl h
  simp only [Link.after, heffects, List.length_nil, Nat.add_zero, List.append_nil, List.map_nil]
  exact ⟨by rw [hs]; exact h.single, h.prefixed, fun hd' => by rw [hq]; exact h.queue (hd.symm.trans hd'),
    fun hd' hne => by rw [hs]; exact h.waits (hd.symm.trans hd') (hq ▸ hne)⟩

lemma detach (p : Peer) : Call p [] p.detach := by
  refine ⟨?_, fun _ => detach_detaching p⟩
  rintro s rfl h
  simpa using inv_detach h

lemma send (p : Peer) (m : Message) : Call p [m] (p.sendPacket (some (packed m))) := by
  refine ⟨?_, fun h => (sendPacket_frame _ p).1.trans h⟩
  rintro s rfl h
  exact inv_sendPacket h (packed m)

/-- One call after another. -/
lemma andThen {p : Peer} {ms ns : List Message} {r r' : Peer × List Effect} (h : Call p ms r)
    (h' : Call r.1 ns r') : Call p (ms ++ ns) (r'.1, r.2 ++ r'.2) := by
  refine ⟨?_, fun hd => h'.stays (h.stays hd)⟩
  intro s hs hinv
  have hnext := h'.link _ rfl (h.link s hs hinv)
  simpa [Link.after, writes_append, Nat.add_assoc] using hnext

lemma act (p : Peer) (a : Act) : Call p a.messages (a.run p) := by
  cases a with
  | send m => exact send p m.1
  | detach => exact detach p
  | other mHelloed mNodePublic mIpPort => exact silent rfl rfl rfl rfl

lemma runAll (as : List Act) (p : Peer) : Call p (as.flatMap Act.messages) (runAll as p) := by
  induction as generalizing p with
  | nil => exact silent rfl rfl rfl rfl
  | cons a as ih => exact andThen (act p a) (ih _)

end Call

namespace Quiet

lemma refl (p : Peer) : Quiet p (p, []) := ⟨rfl, rfl, rfl⟩

lemma detach (p : Peer) : Quiet p p.detach := by
  refine ⟨reads_detach p, messages_detach p, ?_⟩
  unfold Peer.detach
  split_ifs <;> rfl

lemma sendPacket (packet : PackedMessage) (p : Peer) : Quiet p (p.sendPacket (some packet)) := by
  rcases sendPacket_cases p packet with ⟨_, h⟩ | ⟨_, _, h⟩ | ⟨_, h⟩ <;> rw [h] <;> exact ⟨rfl, rfl, rfl⟩

lemma handleWrite (error : ErrorCode) (p : Peer) : Quiet p (p.handleWrite error) := by
  unfold Peer.handleWrite Peer.sendPacketForce
  dsimp only
  split_ifs
  · exact ⟨rfl, rfl, rfl⟩
  · exact ⟨(detach _).reads, (detach _).messages, (detach { p with mSendingPacket := none }).readbuf⟩
  · split <;> exact ⟨rfl, rfl, rfl⟩

lemma andThen {p : Peer} {r r' : Peer × List Effect} (h : Quiet p r) (h' : Quiet r.1 r') :
    Quiet p (r'.1, r.2 ++ r'.2) :=
  ⟨by rw [reads_append, h.reads, h'.reads]; rfl, by rw [messages_append, h.messages, h'.messages]; rfl,
    h'.readbuf.trans h.readbuf⟩

lemma act (p : Peer) (a : Act) : Quiet p (a.run p) := by
  cases a with
  | send m => exact sendPacket (packed m.1) p
  | detach => exact detach p
  | other mHelloed mNodePublic mIpPort => exact ⟨rfl, rfl, rfl⟩

lemma runAll (as : List Act) (p : Peer) : Quiet p (runAll as p) := by
  induction as generalizing p with
  | nil => exact refl p
  | cons a as ih => exact andThen (act p a) (ih _)

end Quiet

/-! ### The read loop -/

section Loop

variable (react : Reaction)

/-- The `recv…` as `Framing` has it. -/
def recv : Recv where
  run type body p := runAll (react type body p) p
  quiet type body p e he := by
    have hquiet := Quiet.runAll (react type body p) p
    refine ⟨?_, ?_⟩
    · rintro n handler rfl
      have hmem := mem_reads he
      rw [hquiet.reads] at hmem
      cases hmem
    · rintro type' body' rfl
      have hmem := mem_messages he
      rw [hquiet.messages] at hmem
      cases hmem

/-- The pending read ends after `k` bytes. -/
def End.finish (k : ℕ) (error : ErrorCode) (n : ℕ) (handler : ReadHandler) (e : End) : End :=
  let p := { e.peer with mReadbuf := fill n (e.unread.take k) e.peer.mReadbuf }
  { e with unread := e.unread.drop k, pending := none }.after (submits react handler error p)
    (handle (recv react) handler error p)

lemma reader_finish (k : ℕ) (error : ErrorCode) (n : ℕ) (handler : ReadHandler) (e : End) :
    (e.finish react k error n handler).reader = e.reader.finish (recv react) k error n handler := by
  simp [End.finish, End.after, End.reader, Reader.finish, Reader.after]

lemma runAll_detach (p : Peer) : runAll [.detach] p = p.detach := by
  simp [runAll, Act.run]

/-- The message is handed on, and its acts are done. -/
lemma processReadBuffer_eq (p : Peer) : p.processReadBuffer (recv react).run =
    ((runAll (answer react p) p).1, [.message (PackedMessage.getType p.mReadbuf) (p.mReadbuf.drop HEADER_SIZE)] ++
      (runAll (answer react p) p).2) := by
  unfold processReadBuffer answer
  dsimp only
  split_ifs
  · rw [runAll_detach]
    rfl
  · rfl

lemma call_startReadHeader (p : Peer) : Call p [] p.startReadHeader := by
  unfold startReadHeader
  split_ifs <;> exact .silent rfl rfl rfl rfl

/-- **What the handler of a read submits is what it has its acts submit.** -/
lemma call_handle (handler : ReadHandler) (error : ErrorCode) (p : Peer) :
    Call p (submits react handler error p) (handle (recv react) handler error p) := by
  cases handler with
  | readHeader =>
    simp only [handle, submits, handleReadHeader, startReadBody]
    split_ifs
    · exact .silent rfl rfl rfl rfl
    · exact .detach p
    · exact .silent rfl rfl rfl rfl
    · exact .detach p
  | readBody =>
    simp only [handle, submits, handleReadBody]
    split_ifs
    · exact .silent rfl rfl rfl rfl
    · have hprocess : Call p ((answer react p).flatMap Act.messages) (p.processReadBuffer (recv react).run) := by
        rw [processReadBuffer_eq]
        exact .andThen (.silent rfl rfl rfl rfl) (.runAll _ p)
      simpa using hprocess.andThen (call_startReadHeader _)
    · exact .detach p

lemma framed_submits {handler : ReadHandler} {error : ErrorCode} {p : Peer} {m : Message}
    (h : m ∈ submits react handler error p) : Framed m := by
  cases handler with
  | readHeader => cases h
  | readBody =>
    simp only [submits] at h
    split_ifs at h
    · cases h
    · obtain ⟨a, _, hm⟩ := List.mem_flatMap.mp h
      exact a.framed hm
    · cases h

end Loop

/-! ### An end -/

/-- What an end does, and what the network does with the bytes it writes. -/
inductive Local (react : Reaction) : End → End → Prop
  | act (e : End) (a : Act) : Local react e (e.after a.messages (a.run e.peer))
  /-- The network takes bytes of the write in flight. -/
  | transmit (e : End) (bytes : Bytes) (h : 0 < e.outstanding) (hw : e.wire ++ bytes <+: buffers e.started) :
      Local react e { e with wire := e.wire ++ bytes }
  /-- The write completes, with success only when all of it is taken. -/
  | written (e : End) (error : ErrorCode) (h : 0 < e.outstanding)
      (hall : error = .success → e.wire = buffers e.started) :
      Local react e ({ e with outstanding := e.outstanding - 1 }.after [] (e.peer.handleWrite error))
  | read (e : End) (n : ℕ) (handler : ReadHandler) (h : e.pending = some (n, handler))
      (hn : n ≤ e.unread.length) : Local react e (e.finish react n .success n handler)
  | fail (e : End) (n k : ℕ) (handler : ReadHandler) (error : ErrorCode) (h : e.pending = some (n, handler))
      (hk : k ≤ n) (herror : error ≠ .success) : Local react e (e.finish react k error n handler)

/-- **The invariant of writing**: that of `Send`, and the wire has what was written before and a part of the
write in flight. -/
structure Writing (e : End) : Prop where
  link : Send.Inv e.link
  framed : ∀ m ∈ e.sent, Framed m
  wire : e.wire <+: buffers e.started
  taken : e.peer.mDetaching = false → e.outstanding = 0 → e.wire = buffers e.started

/-- **The invariant of an end.** -/
structure End.Inv (e : End) : Prop where
  writing : Writing e
  reader : Framing.Inv e.reader

lemma buffers_append (ps qs : List PackedMessage) : buffers (ps ++ qs) = buffers ps ++ buffers qs :=
  List.flatMap_append

lemma Writing.call {e : End} {p : Peer} {ms : List Message} {r : Peer × List Effect}
    (h : Writing { e with peer := p }) (hcall : Call p ms r) (hms : ∀ m ∈ ms, Framed m) :
    Writing (e.after ms r) := by
  refine ⟨?_, ?_, ?_, ?_⟩
  · simpa [End.after, End.link, Link.after] using hcall.link _ rfl h.link
  · intro m hm
    exact (List.mem_append.mp hm).elim (h.framed m) (hms m)
  · simp only [End.after, buffers_append]
    exact h.wire.trans (List.prefix_append _ _)
  · simp only [End.after]
    intro hlive hnone
    have hwrites : writes r.2 = [] := List.eq_nil_of_length_eq_zero (by omega)
    have hlive' : p.mDetaching = false := by
      by_contra hdetaching
      exact absurd ((hcall.stays (by simpa using hdetaching)).symm.trans hlive) (by decide)
    have hnone' : e.outstanding = 0 := by omega
    rw [hwrites, List.append_nil]
    exact h.taken hlive' hnone'

/-- A write that fails leaves a peer that detaches. -/
lemma handleWrite_live {error : ErrorCode} {p : Peer} (h : (p.handleWrite error).1.mDetaching = false) :
    error = .success := by
  unfold Peer.handleWrite at h
  dsimp only at h
  split_ifs at h with hd herror
  · exact absurd (hd.symm.trans h) (by decide)
  · exact absurd ((detach_detaching _).symm.trans h) (by decide)
  · exact not_not.mp herror

lemma handleWrite_stays (error : ErrorCode) {p : Peer} (h : p.mDetaching = true) :
    (p.handleWrite error).1.mDetaching = true := by
  unfold Peer.handleWrite
  dsimp only
  rw [if_pos h]
  exact h

namespace End.Inv

variable {e : End}

lemma act (h : e.Inv) (a : Act) : (e.after a.messages (a.run e.peer)).Inv := by
  refine ⟨h.writing.call (.act e.peer a) fun _ => Act.framed, ?_⟩
  have hquiet := Quiet.act e.peer a
  have hreader := inv_other h.reader hquiet.readbuf (Call.act e.peer a).stays
  simpa [End.after, End.reader, hquiet.reads, hquiet.messages] using hreader

lemma written (h : e.Inv) (hone : 0 < e.outstanding) {error : ErrorCode}
    (hall : error = .success → e.wire = buffers e.started) :
    ({ e with outstanding := e.outstanding - 1 }.after [] (e.peer.handleWrite error)).Inv := by
  have hquiet := Quiet.handleWrite error e.peer
  refine ⟨⟨?_, ?_, ?_, ?_⟩, ?_⟩
  · simpa [End.after, End.link, Link.after] using inv_handleWrite h.writing.link hone error
  · simpa [End.after] using h.writing.framed
  · simp only [End.after, buffers_append]
    exact h.writing.wire.trans (List.prefix_append _ _)
  · simp only [End.after]
    intro hlive hnone
    have hwrites : writes (e.peer.handleWrite error).2 = [] := List.eq_nil_of_length_eq_zero (by omega)
    rw [hwrites, List.append_nil]
    exact hall (handleWrite_live hlive)
  · have hreader := inv_other h.reader hquiet.readbuf (handleWrite_stays error)
    simpa [End.after, End.reader, hquiet.reads, hquiet.messages] using hreader

/-- However a read ends, what is done next keeps what `Send` says. -/
lemma writing_finish (react : Reaction) (h : e.Inv) (k : ℕ) (error : ErrorCode) (n : ℕ) (handler : ReadHandler) :
    Writing (e.finish react k error n handler) := by
  obtain ⟨hsingle, hprefixed, hqueue, hwaits⟩ := h.writing.link
  let p := { e.peer with mReadbuf := fill n (e.unread.take k) e.peer.mReadbuf }
  have hread : Writing { e with peer := p, unread := e.unread.drop k, pending := none } :=
    ⟨⟨hsingle, hprefixed, hqueue, hwaits⟩, h.writing.framed, h.writing.wire, h.writing.taken⟩
  exact Writing.call (e := { e with unread := e.unread.drop k, pending := none }) (p := p) hread
    (call_handle react handler error p) fun _ => framed_submits react

lemma step {react : Reaction} {f : End} (h : e.Inv) (hstep : Local react e f) :
    f.Inv ∧ e.wire <+: f.wire ∧ f.received = e.received := by
  cases hstep with
  | act a => exact ⟨h.act a, List.prefix_rfl, rfl⟩
  | transmit bytes hone hw =>
    refine ⟨⟨⟨h.writing.link, h.writing.framed, hw, ?_⟩, h.reader⟩, List.prefix_append _ _, rfl⟩
    intro _ hnone
    exact absurd hnone hone.ne'
  | written error hone hall => exact ⟨h.written hone hall, List.prefix_rfl, rfl⟩
  | read n handler hpending hn =>
    refine ⟨⟨h.writing_finish react n .success n handler, ?_⟩, List.prefix_rfl, rfl⟩
    rw [reader_finish]
    refine inv_complete (recv react) h.reader ?_
    have hpending' : e.reader.pending = some (n, handler) := hpending
    rw [complete, hpending']
    exact if_pos hn
  | fail n k handler error _ _ herror =>
    refine ⟨⟨h.writing_finish react k error n handler, ?_⟩, List.prefix_rfl, rfl⟩
    rw [reader_finish]
    exact inv_fail (recv react) h.reader k n handler herror

end End.Inv

/-- What an end that neither detaches nor has a write in flight has put on the wire: all it was given. -/
lemma Writing.all {e : End} (h : Writing e) (hd : e.peer.mDetaching = false) (hnone : e.outstanding = 0) :
    e.started = e.sent.map packed ∧ e.wire = buffers (e.sent.map packed) := by
  have hidle : e.peer.mSendingPacket = none := by
    have hsingle : e.outstanding = if e.peer.mSendingPacket.isSome then 1 else 0 := h.link.single
    rw [hnone] at hsingle
    split_ifs at hsingle with hs
    simpa using hs
  have hstarted : e.started ++ e.peer.mSendQ = e.sent.map packed := h.link.queue hd
  rw [show e.peer.mSendQ = [] from h.link.idle hd hidle, List.append_nil] at hstarted
  exact ⟨hstarted, hstarted ▸ h.taken hd hnone⟩

/-! ### What is read of what was sent -/

/-- The header of a message that may be too long. -/
lemma header_framed {m : Message} (h : Framed m) :
    ∃ header : Bytes, header.length = HEADER_SIZE ∧ (packed m).mBuffer = header ++ m.2 ∧
      beNat (header.take 4) = m.2.length := by
  have hsize : m.2.length < 256 ^ 4 := h.2
  refine ⟨beBytes 4 m.2.length ++ beBytes 2 m.1, by simp [HEADER_SIZE], ?_, ?_⟩
  · simp only [packed, PackedMessage.pack, PackedMessage.encodeHeader, shiftOut_eq, BitVec.toNat_ofNat]
    rw [Nat.mod_eq_of_lt h.2, Nat.mod_eq_of_lt (lt_trans h.1 (by decide))]
  · rw [List.take_left' (length_beBytes _ _), beNat_beBytes, Nat.mod_eq_of_lt hsize]

lemma buffers_packed (ms : List Message) : buffers (ms.map packed) = frames.encodeAll ms :=
  List.flatMap_map ..

/-- From the first message that is too long on. -/
lemma dropWhile_fits (ms : List Message) (hms : ∀ m ∈ ms, Framed m) : ms.dropWhile (Fits ·) = [] ∨
    ∃ header rest : Bytes, header.length = HEADER_SIZE ∧ maxBody < beNat (header.take 4) ∧
      frames.encodeAll (ms.dropWhile (Fits ·)) = header ++ rest := by
  cases h : ms.dropWhile (Fits ·) with
  | nil => exact Or.inl rfl
  | cons m rest =>
    right
    have hm : m ∈ ms := (List.dropWhile_suffix _).subset (h ▸ List.mem_cons_self)
    have hlong : ¬Fits m := by
      have hne : ms.dropWhile (Fits ·) ≠ [] := h ▸ List.cons_ne_nil m rest
      have hhead := List.head_dropWhile_not _ hne
      simpa [h] using hhead
    obtain ⟨header, hheader, hpack, hlength⟩ := header_framed (hms m hm)
    refine ⟨header, m.2 ++ frames.encodeAll rest, hheader, ?_, ?_⟩
    · rw [hlength]
      exact not_le.mp fun hle => hlong ⟨(hms m hm).1, hle⟩
    · rw [PrefixCode.encodeAll_cons, ← List.append_assoc]
      exact congrArg (· ++ _) hpack

section Delivered

variable {s : Reader} {ms : List Message} (h : Framing.Inv s) (hms : ∀ m ∈ ms, Framed m)
include h hms

/-- Where bytes that came in are the front of messages, those before the first that is too long are what is
delivered, as far as it goes. -/
lemma delivered_fits (hreceived : s.received <+: frames.encodeAll ms) :
    s.delivered <+: ms.takeWhile (Fits ·) := by
  obtain ⟨x, hx⟩ := h.prefixed.trans hreceived
  have hfits : ∀ m ∈ ms.takeWhile (Fits ·), Fits m := fun m hm => by
    simpa using List.mem_takeWhile_imp hm
  have hsplit : frames.encodeAll ms =
      frames.encodeAll (ms.takeWhile (Fits ·)) ++ frames.encodeAll (ms.dropWhile (Fits ·)) := by
    rw [← PrefixCode.encodeAll_append, List.takeWhile_append_dropWhile]
  have hstop (m : Message) (z : Bytes) (hm : Fits m) :
      frames.encodeAll (ms.dropWhile (Fits ·)) ≠ frames.encode m ++ z := by
    rcases dropWhile_fits ms hms with hnil | ⟨header, rest, hheader, hlarge, heq⟩
    · rw [hnil]
      exact fun hnil => frames.ne_nil m hm (List.append_eq_nil_iff.mp hnil.symm).1
    · rw [heq]
      exact oversize_ne hheader hlarge rest m z hm
  obtain ⟨rest, hrest, _⟩ := PrefixCode.encodeAll_prefix (c := frames) h.fits hfits hstop (hx.trans hsplit)
  exact ⟨rest, hrest.symm⟩

/-- A reader that rests undetached has delivered all of them. -/
lemma delivered_all {react : Reaction} (hd : s.peer.mDetaching = false) (hrests : Rests (recv react) s)
    (hreceived : s.received = frames.encodeAll ms) : s.delivered = ms := by
  obtain ⟨rest, hrest⟩ := delivered_fits h hms (hreceived ▸ List.prefix_rfl)
  have hfits : ∀ m ∈ rest, Fits m := fun m hm => by
    have hmem : m ∈ ms.takeWhile (Fits ·) := hrest ▸ List.mem_append_right _ hm
    simpa using List.mem_takeWhile_imp hmem
  have hsplit : s.received =
      frames.encodeAll (s.delivered ++ rest) ++ frames.encodeAll (ms.dropWhile (Fits ·)) := by
    rw [hrest, ← PrefixCode.encodeAll_append, List.takeWhile_append_dropWhile, hreceived]
  obtain ⟨rfl, hleft⟩ := rests_all h hd hrests hfits hsplit
  rw [List.append_nil] at hrest
  rcases dropWhile_fits ms hms with hnil | ⟨header, tail, hheader, hlarge, heq⟩
  · rw [hrest, ← List.append_nil (ms.takeWhile _), ← hnil, List.takeWhile_append_dropWhile]
  · -- at the header of one that is too long it does not rest
    exfalso
    rw [heq] at hleft
    rcases hleft with ⟨hunread, hlt⟩ | ⟨kept, hkept, hmax, htail⟩
    · rw [hunread, List.length_append, hheader] at hlt
      omega
    · obtain ⟨rfl, _⟩ := List.append_inj htail (hheader.trans hkept.symm)
      omega

end Delivered

/-! ### Both ends -/

/-- By the part an end takes in the handshake. -/
inductive Side
  | client
  | server
  deriving DecidableEq, Repr

def Side.other : Side → Side
  | .client => .server
  | .server => .client

@[simp] lemma Side.other_other (i : Side) : i.other.other = i := by cases i <;> rfl

lemma Side.other_ne (i : Side) : i.other ≠ i := by cases i <;> decide

lemma Side.eq_or (i j : Side) : j = i ∨ j = i.other := by cases i <;> cases j <;> decide

abbrev Ends := Side → End

/-- The handshake is over; `hello` is the packet that `sendHello` sends. -/
def End.start (mConnectionPool : Bool) (hello : Message) : End :=
  End.after [hello] ((create mConnectionPool).handleStart (some (packed hello)) .success)
    ⟨create mConnectionPool, 0, [], [], [], none, [], [], [], []⟩

/-- Bytes come in. -/
def End.arrive (bytes : Bytes) (e : End) : End :=
  { e with received := e.received ++ bytes, unread := e.unread ++ bytes }

section Runs

variable (react : Side → Reaction)

inductive Step : Ends → Ends → Prop
  | local (c : Ends) (i : Side) (e : End) (h : Local (react i) (c i) e) : Step c (Function.update c i e)
  | arrive (c : Ends) (i : Side) (bytes : Bytes) (h : (c i).received ++ bytes <+: (c i.other).wire) :
      Step c (Function.update c i ((c i).arrive bytes))

/-- The two ends start, each with its hello. -/
def Reachable (c : Ends) : Prop :=
  ∃ (mConnectionPool : Side → Bool) (hello : Side → { m : Message // Framed m }),
    Relation.ReflTransGen (Step react) (fun i => End.start (mConnectionPool i) (hello i).1) c

/-- **The invariant.**  What came in at one end is the front of what the other put on the wire. -/
def Inv (c : Ends) : Prop := ∀ i, (c i).Inv ∧ (c i).received <+: (c i.other).wire

lemma start_inv (mConnectionPool : Bool) (hello : { m : Message // Framed m }) :
    (End.start mConnectionPool hello.1).Inv := by
  refine ⟨⟨⟨rfl, List.prefix_rfl, fun _ => rfl, fun _ h => absurd rfl h⟩, ?_, List.nil_prefix, ?_⟩, ?_⟩
  · intro m hm
    obtain rfl := List.mem_singleton.mp hm
    exact hello.2
  · intro _ hnone
    cases hnone
  · exact inv_start (p := { create mConnectionPool with mSendingPacket := some (packed hello.1) }) rfl

/-- An end changes, with no less on its wire and no more come in than the other has sent. -/
lemma Inv.update {c : Ends} (h : Inv c) {i : Side} {e : End} (he : e.Inv) (hwire : (c i).wire <+: e.wire)
    (hreceived : e.received <+: (c i.other).wire) : Inv (Function.update c i e) := by
  intro j
  rcases Side.eq_or i j with rfl | rfl
  · rw [Function.update_self, Function.update_of_ne (Side.other_ne j)]
    exact ⟨he, hreceived⟩
  · rw [Function.update_of_ne (Side.other_ne i), Side.other_other, Function.update_self]
    refine ⟨(h i.other).1, ?_⟩
    have hother := (h i.other).2
    rw [Side.other_other] at hother
    exact hother.trans hwire

variable {react}

lemma Inv.step {c d : Ends} (h : Inv c) (hstep : Step react c d) : Inv d := by
  cases hstep with
  | «local» i e hlocal =>
    obtain ⟨he, hwire, hreceived⟩ := (h i).1.step hlocal
    exact h.update he hwire (hreceived ▸ (h i).2)
  | arrive i bytes hbytes =>
    obtain ⟨hwriting, hreader⟩ := (h i).1
    refine h.update ⟨⟨hwriting.link, hwriting.framed, hwriting.wire, hwriting.taken⟩, ?_⟩ List.prefix_rfl hbytes
    exact inv_arrive hreader bytes

lemma inv_reachable {c : Ends} (h : Reachable react c) : Inv c := by
  obtain ⟨mConnectionPool, hello, hrun⟩ := h
  induction hrun with
  | refl => exact fun i => ⟨start_inv _ (hello i), List.nil_prefix⟩
  | tail _ hstep ih => exact ih.step hstep

/-- What came in is the front of all that was sent. -/
lemma Inv.received {c : Ends} (h : Inv c) (i : Side) :
    (c i).received <+: frames.encodeAll (c i.other).sent := by
  obtain ⟨rest, hrest⟩ := (h i.other).1.writing.link.prefixed
  have hstarted : buffers (c i.other).started <+: buffers ((c i.other).sent.map packed) := by
    have hall : (c i.other).started ++ rest = (c i.other).sent.map packed := hrest
    rw [← hall, buffers_append]
    exact List.prefix_append _ _
  rw [← buffers_packed]
  exact ((h i).2.trans (h i.other).1.writing.wire).trans hstarted

/-! ### Delivery -/

variable (react) in
/-- What brings the messages of one side to the other: the network takes bytes and hands them over, writes
complete, and reads. -/
inductive Net (i : Side) : Ends → Ends → Prop
  | transmit (c : Ends) (bytes : Bytes) (h : 0 < (c i).outstanding) (hne : bytes ≠ [])
      (hw : (c i).wire ++ bytes <+: buffers (c i).started) :
      Net i c (Function.update c i { c i with wire := (c i).wire ++ bytes })
  | written (c : Ends) (h : 0 < (c i).outstanding) (hall : (c i).wire = buffers (c i).started) :
      Net i c (Function.update c i
        ({ c i with outstanding := (c i).outstanding - 1 }.after [] ((c i).peer.handleWrite .success)))
  | arrive (c : Ends) (bytes : Bytes) (hne : bytes ≠ [])
      (h : (c i.other).received ++ bytes <+: (c i).wire) :
      Net i c (Function.update c i.other ((c i.other).arrive bytes))
  | read (c : Ends) (n : ℕ) (handler : ReadHandler) (h : (c i.other).pending = some (n, handler))
      (hn : n ≤ (c i.other).unread.length) :
      Net i c (Function.update c i.other ((c i.other).finish (react i.other) n .success n handler))

lemma Net.step {i : Side} {c d : Ends} (h : Net react i c d) : Step react c d := by
  cases h with
  | transmit bytes hone _ hw => exact .local c i _ (.transmit _ bytes hone hw)
  | written hone hall => exact .local c i _ (.written _ .success hone fun _ => hall)
  | arrive bytes _ hbytes => exact .arrive c i.other bytes (by rwa [Side.other_other])
  | read n handler hpending hn => exact .local c i.other _ (.read _ n handler hpending hn)

/-- **No deadlock**: while neither detaches, the network can go on or has brought everything. -/
lemma Inv.net {c : Ends} (h : Inv c) (i : Side) (hi : (c i).peer.mDetaching = false)
    (hj : (c i.other).peer.mDetaching = false) : (∃ d, Net react i c d) ∨ (c i.other).delivered = (c i).sent := by
  by_cases hone : 0 < (c i).outstanding
  · -- the write goes on, or completes
    left
    obtain ⟨bytes, hbytes⟩ := (h i).1.writing.wire
    by_cases hne : bytes = []
    · rw [hne, List.append_nil] at hbytes
      exact ⟨_, .written c hone hbytes⟩
    · exact ⟨_, .transmit c bytes hone hne (hbytes ▸ List.prefix_rfl)⟩
  obtain ⟨_, hwire⟩ := (h i).1.writing.all hi (Nat.eq_zero_of_not_pos hone)
  have hfront := (h i.other).2
  rw [Side.other_other] at hfront
  obtain ⟨bytes, hbytes⟩ := hfront
  by_cases hne : bytes = []
  · rw [hne, List.append_nil] at hbytes
    by_cases hrests : Rests (recv (react i.other)) (c i.other).reader
    · -- all is there, and the loop rests
      right
      refine delivered_all (h i.other).1.reader (h i).1.writing.framed hj hrests ?_
      exact hbytes.trans (hwire.trans (buffers_packed _))
    · left
      obtain ⟨t, hcomplete⟩ := Option.ne_none_iff_exists'.mp hrests
      obtain ⟨n, handler, hpending, hn, _⟩ := complete_some _ hcomplete
      exact ⟨_, .read c n handler hpending hn⟩
  · exact Or.inl ⟨_, .arrive c bytes hne (hbytes ▸ List.prefix_rfl)⟩

/-- A write that completes is followed by the next, if one waits. -/
lemma handleWrite_success {p : Peer} (hd : p.mDetaching = false) :
    (p.mSendQ = [] ∧ p.handleWrite .success = ({ p with mSendingPacket := none }, [])) ∨
    ∃ packet rest, p.mSendQ = packet :: rest ∧
      p.handleWrite .success = ({ p with mSendingPacket := some packet, mSendQ := rest }, [.asyncWrite packet]) := by
  cases hq : p.mSendQ with
  | nil => exact Or.inl ⟨rfl, by simp [Peer.handleWrite, hd, hq]⟩
  | cons packet rest => exact Or.inr ⟨packet, rest, rfl, by simp [Peer.handleWrite, sendPacketForce, hd, hq]⟩

/-- What the network has still to do for the messages of one side. -/
def measure (i : Side) (c : Ends) : ℕ :=
  ((frames.encodeAll (c i).sent).length - (c i).wire.length) + ((c i).sent.length - (c i).started.length) +
    (c i).outstanding + 3 * ((frames.encodeAll (c i).sent).length - (c i.other).received.length) +
    Framing.measure (c i.other).reader

/-- **Each of its steps is one less to do**, and leaves what was sent and the sender as they are. -/
lemma Inv.net_lt {c d : Ends} (h : Inv c) {i : Side} (hi : (c i).peer.mDetaching = false)
    (hnet : Net react i c d) :
    measure i d < measure i c ∧ (d i).sent = (c i).sent ∧ (d i).peer.mDetaching = false := by
  have hne := Side.other_ne i
  obtain ⟨rest, hrest⟩ := (h i).1.writing.link.prefixed
  have hstarted : (c i).started ++ rest = (c i).sent.map packed := hrest
  have hall : buffers (c i).started ++ buffers rest = frames.encodeAll (c i).sent := by
    rw [← buffers_append, hstarted, buffers_packed]
  cases hnet with
  | transmit bytes _ hbytes hw =>
    have hlength := hw.length_le
    have htotal := congrArg List.length hall
    have hpos := List.length_pos_iff.mpr hbytes
    simp only [List.length_append] at hlength htotal
    simp only [measure, Function.update_self, Function.update_of_ne hne, List.length_append]
    exact ⟨by omega, trivial, hi⟩
  | written hone _ =>
    have hsingle : (c i).outstanding ≤ 1 := by
      have hsingle := (h i).1.writing.link.single
      change (c i).outstanding = _ at hsingle
      rw [hsingle]
      split_ifs <;> omega
    rcases handleWrite_success hi with ⟨_, hcall⟩ | ⟨packet, waiting, hq, hcall⟩
    · simp only [measure, hcall, End.after, writes, Function.update_self, Function.update_of_ne hne,
        List.filterMap_nil, List.append_nil, List.length_nil, Nat.add_zero]
      exact ⟨by omega, trivial, hi⟩
    · have hqueue : (c i).started ++ (c i).peer.mSendQ = (c i).sent.map packed := (h i).1.writing.link.queue hi
      have hcount := congrArg List.length hqueue
      rw [hq, List.length_append, List.length_cons, List.length_map] at hcount
      have hwrites : writes [.asyncWrite packet] = [packet] := rfl
      simp only [measure, hcall, End.after, hwrites, Function.update_self, Function.update_of_ne hne,
        List.append_nil, List.length_append, List.length_singleton]
      exact ⟨by omega, trivial, hi⟩
  | arrive bytes hbytes hin =>
    have hlength := (hin.trans (h i).1.writing.wire).length_le
    have htotal := congrArg List.length hall
    have hpos := List.length_pos_iff.mpr hbytes
    simp only [List.length_append] at hlength htotal
    simp only [measure, Framing.measure, End.arrive, End.reader, Function.update_self,
      Function.update_of_ne hne.symm, List.length_append]
    exact ⟨by omega, trivial, hi⟩
  | read n handler hpending hn =>
    have hcomplete : complete (recv (react i.other)) (c i.other).reader =
        some ((c i.other).reader.finish (recv (react i.other)) n .success n handler) := by
      have hpending' : (c i.other).reader.pending = some (n, handler) := hpending
      rw [complete, hpending']
      exact if_pos hn
    have hlt := measure_lt _ (h i.other).1.reader hcomplete
    rw [← reader_finish] at hlt
    have hreceived : ((c i.other).finish (react i.other) n .success n handler).received = (c i.other).received := rfl
    simp only [measure, Function.update_self, Function.update_of_ne hne.symm, hreceived]
    exact ⟨by omega, trivial, hi⟩

end Runs

/-- Both ends have sent their hellos. -/
def hellos : Ends := fun _ => End.start true (mtHELLO, [7])

lemma reachable_hellos (react : Side → Reaction) : Reachable react hellos :=
  ⟨fun _ => true, fun _ => ⟨(mtHELLO, [7]), by decide, by decide⟩, .refl⟩

/-- **The network alone brings everything**: from any state of any run in which the sender does not detach,
deliveries and completions lead to one where all that had been sent is handed on, or the receiver detaches. -/
theorem channel_delivers (react : Side → Reaction) (c : Ends) (h : Reachable react c) (i : Side)
    (hi : (c i).peer.mDetaching = false) :
    ∃ d, Relation.ReflTransGen (Net react i) c d ∧ (d i).sent = (c i).sent ∧
      ((d i.other).peer.mDetaching = true ∨ (d i.other).delivered = (c i).sent) := by
  have hinv := inv_reachable h
  induction hm : measure i c using Nat.strong_induction_on generalizing c with
  | _ m ih =>
    by_cases hj : (c i.other).peer.mDetaching = true
    · exact ⟨c, .refl, rfl, Or.inl hj⟩
    have hnext : (∃ d, Net react i c d) ∨ (c i.other).delivered = (c i).sent := hinv.net i hi (by simpa using hj)
    rcases hnext with ⟨d, hnet⟩ | hall
    · obtain ⟨hlt, hsent, hi'⟩ := hinv.net_lt hi hnet
      have hreach : Reachable react d := by
        obtain ⟨pool, hello, hrun⟩ := h
        exact ⟨pool, hello, hrun.tail hnet.step⟩
      obtain ⟨d', hrun, hsent', hd'⟩ := ih _ (hm ▸ hlt) d hreach hi' (hinv.step hnet.step) rfl
      exact ⟨d', hrun.head hnet, hsent'.trans hsent, hsent ▸ hd'⟩
    · exact ⟨c, .refl, rfl, Or.inr hall⟩

theorem channel_delivers_hellos : ∃ d : Ends, (d .client).sent = [(mtHELLO, [7])] ∧
    ((d .server).peer.mDetaching = true ∨ (d .server).delivered = [(mtHELLO, [7])]) := by
  obtain ⟨d, _, hsent, hd⟩ := channel_delivers default hellos (reachable_hellos default) .client rfl
  exact ⟨d, hsent, hd⟩

end Newcoin.Peer.Channel
