import Newcoin.Lib.PrefixCode
import Newcoin.Peer.Defs
import Mathlib.Logic.Relation

/-!
# Incoming messages

The read loop of a peer over the bytes that come in, under any interleaving of arrivals, read completions,
read errors and other calls on the peer.  The buffers of packed messages are a prefix code (`frames`), and
the loop is its reader:

* `Inv` — what has been read off is the messages handed on and the header the buffer keeps.
* `framing_exact` — what follows for the runs.
-/

namespace Newcoin.Peer.Framing

open Lib

/-! ### Packed messages as a code -/

/-- The limit of `handle_read_header`. -/
def maxBody : ℕ := 32 * 1024 * 1024

/-- A type and a body. -/
abbrev Message := ℕ × Bytes

/-- What a header can announce and `handle_read_header` accepts. -/
def Fits (m : Message) : Prop := m.1 < 2 ^ 16 ∧ m.2.length ≤ maxBody

lemma pack_eq {m : Message} (h : Fits m) :
    (PackedMessage.pack m.2 m.1).mBuffer = beBytes 4 m.2.length ++ beBytes 2 m.1 ++ m.2 := by
  obtain ⟨htype, hlength⟩ := h
  have hsize : m.2.length < 2 ^ 32 := lt_of_le_of_lt hlength (by decide)
  simp only [PackedMessage.pack, PackedMessage.encodeHeader, shiftOut_eq, BitVec.toNat_ofNat]
  rw [Nat.mod_eq_of_lt hsize, Nat.mod_eq_of_lt (by omega)]

lemma getLength_append {header : Bytes} (h : header.length = HEADER_SIZE) (x : Bytes) :
    PackedMessage.getLength (header ++ x) = beNat (header.take 4) := by
  have h6 : header.length = 6 := h
  have htake : (header ++ x).take 4 = header.take 4 := by
    rw [List.take_append_of_le_length (by omega)]
  rw [PackedMessage.getLength, if_neg (by simp [HEADER_SIZE, h6]), htake,
    toNat_shiftIn _ (by simp [h6])]

lemma getType_append {header : Bytes} (h : header.length = HEADER_SIZE) (x : Bytes) :
    PackedMessage.getType (header ++ x) = beNat (header.drop 4) := by
  have h6 : header.length = 6 := h
  have hdrop : ((header ++ x).drop 4).take 2 = header.drop 4 := by
    rw [List.drop_append_of_le_length (by omega), List.take_left' (by simp [h6])]
  rw [PackedMessage.getType, if_neg (by simp [HEADER_SIZE, h6]), hdrop,
    toNat_shiftIn _ (by simp [h6])]

/-- What the header of a packed message says. -/
lemma header_pack {m : Message} (h : Fits m) :
    ∃ header : Bytes, header.length = HEADER_SIZE ∧ (PackedMessage.pack m.2 m.1).mBuffer = header ++ m.2 ∧
      beNat (header.take 4) = m.2.length ∧ beNat (header.drop 4) = m.1 := by
  have hsize : m.2.length < 256 ^ 4 := lt_of_le_of_lt h.2 (by decide)
  have htype : m.1 < 256 ^ 2 := lt_of_lt_of_le h.1 (by decide)
  refine ⟨beBytes 4 m.2.length ++ beBytes 2 m.1, by simp [HEADER_SIZE], pack_eq h, ?_, ?_⟩
  · rw [List.take_left' (length_beBytes _ _), beNat_beBytes, Nat.mod_eq_of_lt hsize]
  · rw [List.drop_left' (length_beBytes _ _), beNat_beBytes, Nat.mod_eq_of_lt htype]

/-- A header and as many bytes as it announces are a packed message. -/
lemma pack_of_header {header body : Bytes} (h : header.length = HEADER_SIZE)
    (hbody : body.length = beNat (header.take 4)) (hmax : body.length ≤ maxBody) :
    Fits (beNat (header.drop 4), body) ∧
      (PackedMessage.pack body (beNat (header.drop 4))).mBuffer = header ++ body := by
  have h6 : header.length = 6 := h
  have htype : beNat (header.drop 4) < 2 ^ 16 := by
    have hlt := beNat_lt (header.drop 4)
    rwa [List.length_drop, h6] at hlt
  have hsize : beBytes 4 (beNat (header.take 4)) = header.take 4 := by
    have hbytes := beBytes_beNat (header.take 4)
    rwa [List.length_take, h6] at hbytes
  have hrest : beBytes 2 (beNat (header.drop 4)) = header.drop 4 := by
    have hbytes := beBytes_beNat (header.drop 4)
    rwa [List.length_drop, h6] at hbytes
  refine ⟨⟨htype, hmax⟩, ?_⟩
  have hpack := pack_eq (m := (beNat (header.drop 4), body)) ⟨htype, hmax⟩
  simp only at hpack
  rw [hpack, hbody, hsize, hrest, List.take_append_drop]

/-- **The buffers of packed messages are a prefix code.** -/
def frames : PrefixCode Message UInt8 where
  good := Fits
  encode m := (PackedMessage.pack m.2 m.1).mBuffer
  ne_nil m h := by
    obtain ⟨header, hheader, hpack, _⟩ := header_pack h
    rw [hpack]
    intro hnil
    rw [(List.append_eq_nil_iff.mp hnil).1] at hheader
    exact absurd hheader (by decide)
  head_unique m n x y hm hn h := by
    obtain ⟨header, hheader, hpack, hlength, htype⟩ := header_pack hm
    obtain ⟨header', hheader', hpack', hlength', htype'⟩ := header_pack hn
    rw [hpack, hpack', List.append_assoc, List.append_assoc] at h
    obtain ⟨rfl, hbody⟩ := List.append_inj h (hheader.trans hheader'.symm)
    exact Prod.ext (htype.symm.trans htype')
      (List.append_inj hbody (hlength.symm.trans hlength')).1

/-! ### The loop -/

/-- The parse of a body and the `recv…` of its type, which do not read from the socket themselves. -/
structure Recv where
  run : ℕ → Bytes → Peer → Peer × List Effect
  quiet : ∀ type body p, ∀ e ∈ (run type body p).2,
    (∀ n handler, e ≠ .asyncRead n handler) ∧ ∀ type body, e ≠ .message type body

instance : Inhabited Recv := ⟨⟨fun _ _ p => (p, []), fun _ _ _ _ h => by cases h⟩⟩

/-- The read asked for. -/
def reads (effects : List Effect) : List (ℕ × ReadHandler) :=
  effects.filterMap fun e => match e with
    | .asyncRead n handler => some (n, handler)
    | _ => none

/-- The messages handed on. -/
def messages (effects : List Effect) : List Message :=
  effects.filterMap fun e => match e with
    | .message type body => some (type, body)
    | _ => none

/-- A peer and its socket. -/
structure Reader where
  peer : Peer
  /-- The `async_read` whose handler has not run. -/
  pending : Option (ℕ × ReadHandler)
  /-- Everything that came in. -/
  received : Bytes
  /-- What of it has not been read. -/
  unread : Bytes
  /-- Every `async_read`. -/
  asked : List (ℕ × ReadHandler)
  /-- What `processReadBuffer` was given. -/
  delivered : List Message

/-- A call returns. -/
def Reader.after (s : Reader) (r : Peer × List Effect) : Reader :=
  { s with
    peer := r.1
    pending := (reads r.2).getLast?
    asked := s.asked ++ reads r.2
    delivered := s.delivered ++ messages r.2 }

/-- Bytes are written into the last `n` of the buffer. -/
def fill (n : ℕ) (bytes buf : Bytes) : Bytes :=
  buf.take (buf.length - n) ++ bytes ++ buf.drop (buf.length - n + bytes.length)

variable (recv : Recv)

def handle (handler : ReadHandler) (error : ErrorCode) (p : Peer) : Peer × List Effect :=
  match handler with
  | .readHeader => p.handleReadHeader error
  | .readBody => p.handleReadBody recv.run error

/-- The pending read ends after `k` bytes. -/
def Reader.finish (k : ℕ) (error : ErrorCode) (n : ℕ) (handler : ReadHandler) (s : Reader) : Reader :=
  { s with unread := s.unread.drop k }.after
    (handle recv handler error { s.peer with mReadbuf := fill n (s.unread.take k) s.peer.mReadbuf })

/-- The pending read succeeds, if all its bytes are there. -/
def complete (s : Reader) : Option Reader :=
  match s.pending with
  | some (n, handler) => if n ≤ s.unread.length then some (s.finish recv n .success n handler) else none
  | none => none

inductive Step : Reader → Reader → Prop
  | arrive (s : Reader) (bytes : Bytes) :
      Step s { s with received := s.received ++ bytes, unread := s.unread ++ bytes }
  | complete (s t : Reader) (h : complete recv s = some t) : Step s t
  | fail (s : Reader) (n k : ℕ) (handler : ReadHandler) (error : ErrorCode)
      (h : s.pending = some (n, handler)) (hk : k ≤ n) (herror : error ≠ .success) :
      Step s (s.finish recv k error n handler)
  /-- Another call on the peer. -/
  | other (s : Reader) (p : Peer) (hbuf : p.mReadbuf = s.peer.mReadbuf)
      (hstays : s.peer.mDetaching = true → p.mDetaching = true) : Step s { s with peer := p }

/-- A peer that begins to read. -/
def start (p : Peer) : Reader := Reader.after ⟨p, none, [], [], [], []⟩ p.startReadHeader

def Reachable (p : Peer) : Reader → Prop := Relation.ReflTransGen (Step recv) (start p)

/-- Reads complete as long as the bytes are there, `n` of them at most. -/
def loop : ℕ → Reader → Reader
  | 0, s => s
  | n + 1, s => (complete recv s).elim s (loop n)

/-! ### What a completed read does -/

lemma reads_eq_nil {effects : List Effect} (h : ∀ e ∈ effects, ∀ n handler, e ≠ .asyncRead n handler) :
    reads effects = [] := by
  apply List.filterMap_eq_nil_iff.mpr
  intro e he
  cases e with
  | asyncRead n handler => exact absurd rfl (h _ he n handler)
  | _ => rfl

lemma messages_eq_nil {effects : List Effect} (h : ∀ e ∈ effects, ∀ type body, e ≠ .message type body) :
    messages effects = [] := by
  apply List.filterMap_eq_nil_iff.mpr
  intro e he
  cases e with
  | message type body => exact absurd rfl (h _ he type body)
  | _ => rfl

lemma reads_append (a b : List Effect) : reads (a ++ b) = reads a ++ reads b := List.filterMap_append

lemma messages_append (a b : List Effect) : messages (a ++ b) = messages a ++ messages b :=
  List.filterMap_append

lemma reads_detach (p : Peer) : reads p.detach.2 = [] := by
  apply reads_eq_nil
  intro e he n handler
  rcases mem_detach he with ⟨_, rfl⟩ | ⟨_, rfl⟩ <;> exact Effect.noConfusion

lemma messages_detach (p : Peer) : messages p.detach.2 = [] := by
  apply messages_eq_nil
  intro e he type body
  rcases mem_detach he with ⟨_, rfl⟩ | ⟨_, rfl⟩ <;> exact Effect.noConfusion

/-- After a call that only detaches. -/
lemma after_detach (s : Reader) (p : Peer) :
    s.after p.detach = { s with peer := p.detach.1, pending := none } := by
  simp only [Reader.after, reads_detach, messages_detach, List.append_nil, List.getLast?_nil]

/-- `resize` to a greater size. -/
lemma takeD_length_add {α : Type*} (l : List α) (n : ℕ) (a : α) :
    l.takeD (l.length + n) a = l ++ List.replicate n a := by
  induction l with
  | nil => simp
  | cons b l ih => rw [List.length_cons, Nat.succ_add, List.takeD_succ, List.tail_cons, ih]; rfl

lemma fill_eq {n : ℕ} {bytes buf : Bytes} (h : bytes.length = n) (hn : n ≤ buf.length) :
    fill n bytes buf = buf.take (buf.length - n) ++ bytes := by
  rw [fill, List.drop_eq_nil_of_le (by omega), List.append_nil]

/-- A peer that detaches reads no more. -/
lemma finish_detaching {s : Reader} (h : s.peer.mDetaching = true) (k : ℕ) (error : ErrorCode) (n : ℕ)
    (handler : ReadHandler) :
    (s.finish recv k error n handler).peer.mDetaching = true ∧
      (s.finish recv k error n handler).pending = none ∧
      (s.finish recv k error n handler).unread = s.unread.drop k ∧
      (s.finish recv k error n handler).received = s.received ∧
      (s.finish recv k error n handler).asked = s.asked ∧
      (s.finish recv k error n handler).delivered = s.delivered := by
  have hcall (p : Peer) (hp : p.mDetaching = true) : handle recv handler error p = (p, []) := by
    cases handler <;> simp [handle, handleReadHeader, handleReadBody, hp]
  rw [Reader.finish, hcall _ (by exact h)]
  simp [Reader.after, reads, messages, h]

/-- So does one whose read failed, from then on. -/
lemma finish_error {s : Reader} (h : s.peer.mDetaching = false) (k : ℕ) {error : ErrorCode}
    (herror : error ≠ .success) (n : ℕ) (handler : ReadHandler) :
    (s.finish recv k error n handler).peer.mDetaching = true ∧
      (s.finish recv k error n handler).received = s.received ∧
      (s.finish recv k error n handler).asked = s.asked ∧
      (s.finish recv k error n handler).delivered = s.delivered := by
  have hcall (p : Peer) (hp : p.mDetaching = false) : handle recv handler error p = p.detach := by
    cases handler <;> simp [handle, handleReadHeader, handleReadBody, hp, herror]
  rw [Reader.finish, hcall _ (by exact h), after_detach]
  exact ⟨detach_detaching _, rfl, rfl, rfl⟩

/-- **A header announcing too much detaches the peer; any other has its body asked for.** -/
lemma finish_header {s : Reader} (h : s.peer.mDetaching = false) (hbuf : s.peer.mReadbuf.length = HEADER_SIZE)
    {header rest : Bytes} (hheader : header.length = HEADER_SIZE) (hunread : s.unread = header ++ rest) :
    if beNat (header.take 4) > maxBody then
      (s.finish recv HEADER_SIZE .success HEADER_SIZE .readHeader).peer.mDetaching = true ∧
        s.finish recv HEADER_SIZE .success HEADER_SIZE .readHeader =
          { s with
            unread := rest
            peer := (s.finish recv HEADER_SIZE .success HEADER_SIZE .readHeader).peer
            pending := none }
    else
      s.finish recv HEADER_SIZE .success HEADER_SIZE .readHeader =
        { s with
          unread := rest
          peer := { s.peer with mReadbuf := header ++ List.replicate (beNat (header.take 4)) 0 }
          pending := some (beNat (header.take 4), .readBody)
          asked := s.asked ++ [(beNat (header.take 4), .readBody)] } := by
  have htake : s.unread.take HEADER_SIZE = header := by rw [hunread, List.take_left' hheader]
  have hdrop : s.unread.drop HEADER_SIZE = rest := by rw [hunread, List.drop_left' hheader]
  have hfill : fill HEADER_SIZE header s.peer.mReadbuf = header := by
    rw [fill_eq hheader hbuf.ge, hbuf, Nat.sub_self, List.take_zero, List.nil_append]
  have hlength : PackedMessage.getLength header = beNat (header.take 4) := by
    simpa using getLength_append hheader []
  have hmax : 32 * 1024 * 1024 = maxBody := rfl
  simp only [Reader.finish, htake, hdrop, hfill]
  simp only [handle, handleReadHeader, h, hlength, hmax, Bool.false_eq_true, if_false, if_true]
  split_ifs with hlarge
  · rw [after_detach]
    exact ⟨detach_detaching _, rfl⟩
  · have hresize := takeD_length_add header (beNat (header.take 4)) (0 : UInt8)
    rw [hheader] at hresize
    simp [startReadBody, Reader.after, reads, messages, hresize]

/-- `processReadBuffer` is given the type and the body, and does not read. -/
lemma processReadBuffer_effects {p : Peer} {header body : Bytes} (hheader : header.length = HEADER_SIZE)
    (hbuf : p.mReadbuf = header ++ body) :
    reads (p.processReadBuffer recv.run).2 = [] ∧
      messages (p.processReadBuffer recv.run).2 = [(beNat (header.drop 4), body)] := by
  have htype : PackedMessage.getType p.mReadbuf = beNat (header.drop 4) := by
    rw [hbuf, getType_append hheader]
  have hbody : p.mReadbuf.drop HEADER_SIZE = body := by rw [hbuf, List.drop_left' hheader]
  simp only [processReadBuffer, htype, hbody]
  split_ifs
  · exact ⟨reads_detach p, congrArg _ (messages_detach p)⟩
  · exact ⟨reads_eq_nil fun e he => by
        rcases List.mem_cons.mp he with rfl | he
        · exact fun _ _ => Effect.noConfusion
        · exact (recv.quiet _ _ _ e he).1,
      congrArg _ (messages_eq_nil fun e he => (recv.quiet _ _ _ e he).2)⟩

/-- **A body is handed on whole**, and the next header is asked for unless the handler detached. -/
lemma finish_body {s : Reader} (h : s.peer.mDetaching = false) {header body rest : Bytes}
    (hheader : header.length = HEADER_SIZE) (hkeep : s.peer.mReadbuf.take HEADER_SIZE = header)
    (hbuf : s.peer.mReadbuf.length = HEADER_SIZE + body.length) (hunread : s.unread = body ++ rest) :
    let t := s.finish recv body.length .success body.length .readBody
    t.received = s.received ∧ t.unread = rest ∧
      t.delivered = s.delivered ++ [(beNat (header.drop 4), body)] ∧
      ((t.peer.mDetaching = true ∧ t.pending = none ∧ t.asked = s.asked) ∨
        (t.peer.mDetaching = false ∧ t.peer.mReadbuf.length = HEADER_SIZE ∧
          t.pending = some (HEADER_SIZE, .readHeader) ∧
          t.asked = s.asked ++ [(HEADER_SIZE, .readHeader)])) := by
  have htake : s.unread.take body.length = body := by rw [hunread, List.take_left' rfl]
  have hdrop : s.unread.drop body.length = rest := by rw [hunread, List.drop_left' rfl]
  have hfill : fill body.length body s.peer.mReadbuf = header ++ body := by
    rw [fill_eq rfl (by omega), hbuf, Nat.add_sub_cancel, hkeep]
  intro t
  obtain ⟨r, hreads, hmessages, ht⟩ : ∃ r : Peer × List Effect, reads r.2 = [] ∧
      messages r.2 = [(beNat (header.drop 4), body)] ∧
      t = { s with unread := rest }.after (r.1.startReadHeader.1, r.2 ++ r.1.startReadHeader.2) := by
    obtain ⟨hreads, hmessages⟩ := processReadBuffer_effects recv
      (p := { s.peer with mReadbuf := header ++ body }) hheader rfl
    refine ⟨_, hreads, hmessages, ?_⟩
    simp only [t, Reader.finish, htake, hdrop, hfill]
    simp [handle, handleReadBody, h]
  rw [ht]
  cases hd : r.1.mDetaching with
  | true =>
    have hstart : r.1.startReadHeader = (r.1, []) := by simp [startReadHeader, hd]
    rw [hstart, List.append_nil]
    refine ⟨rfl, rfl, ?_, Or.inl ⟨hd, ?_, ?_⟩⟩
    · simp only [Reader.after, hmessages]
    · simp only [Reader.after, hreads, List.getLast?_nil]
    · simp only [Reader.after, hreads, List.append_nil]
  | false =>
    have hstart : r.1.startReadHeader =
        ({ r.1 with mReadbuf := List.replicate HEADER_SIZE 0 }, [.asyncRead HEADER_SIZE .readHeader]) := by
      simp [startReadHeader, hd]
    rw [hstart]
    refine ⟨rfl, rfl, ?_, Or.inr ⟨hd, List.length_replicate, ?_, ?_⟩⟩
    · simp only [Reader.after, messages_append, hmessages]
      rfl
    · simp only [Reader.after, reads_append, hreads]
      rfl
    · simp only [Reader.after, reads_append, hreads]
      rfl

/-! ### The invariant -/

/-- An undetached peer reads a header, or the body that the header in its buffer announces. -/
inductive Reading (s : Reader) : Prop
  | header (hpending : s.pending = some (HEADER_SIZE, .readHeader))
      (hbuf : s.peer.mReadbuf.length = HEADER_SIZE)
      (hread : s.received = frames.encodeAll s.delivered ++ s.unread)
  | body (header : Bytes) (hheader : header.length = HEADER_SIZE)
      (hpending : s.pending = some (beNat (header.take 4), .readBody))
      (hmax : beNat (header.take 4) ≤ maxBody) (hkeep : s.peer.mReadbuf.take HEADER_SIZE = header)
      (hbuf : s.peer.mReadbuf.length = HEADER_SIZE + beNat (header.take 4))
      (hread : s.received = frames.encodeAll s.delivered ++ (header ++ s.unread))

/-- **The invariant.** -/
structure Inv (s : Reader) : Prop where
  fits : ∀ m ∈ s.delivered, Fits m
  bounded : ∀ n, (n, ReadHandler.readBody) ∈ s.asked → n ≤ maxBody
  prefixed : frames.encodeAll s.delivered <+: s.received
  reading : s.peer.mDetaching = false → Reading s

lemma inv_start {p : Peer} (hp : p.mDetaching = false) : Inv (start p) := by
  have hcall : p.startReadHeader =
      ({ p with mReadbuf := List.replicate HEADER_SIZE 0 }, [.asyncRead HEADER_SIZE .readHeader]) := by
    simp [startReadHeader, hp]
  rw [start, hcall]
  refine ⟨fun m hm => absurd hm List.not_mem_nil, ?_, List.prefix_rfl, ?_⟩
  · intro n hn
    simp [Reader.after, reads] at hn
  · intro _
    exact .header rfl List.length_replicate rfl

/-- Of a peer that detaches only what was done is left. -/
lemma inv_detaching {s t : Reader} (h : Inv s) (hd : t.peer.mDetaching = true)
    (hreceived : t.received = s.received) (hasked : t.asked = s.asked)
    (hdelivered : t.delivered = s.delivered) : Inv t :=
  ⟨hdelivered ▸ h.fits, hasked ▸ h.bounded, hdelivered ▸ hreceived ▸ h.prefixed,
    fun hd' => absurd (hd.symm.trans hd') (by decide)⟩

/-- More has come in. -/
lemma inv_arrive {s : Reader} (h : Inv s) (bytes : Bytes) :
    Inv { s with received := s.received ++ bytes, unread := s.unread ++ bytes } := by
  refine ⟨h.fits, h.bounded, h.prefixed.trans (List.prefix_append _ _), ?_⟩
  intro hd
  cases h.reading hd with
  | header hpending hbuf hread =>
    exact .header hpending hbuf (by simp only [hread, List.append_assoc])
  | body header hheader hpending hmax hkeep hbuf hread =>
    exact .body header hheader hpending hmax hkeep hbuf (by simp only [hread, List.append_assoc])

lemma inv_header {s : Reader} (h : Inv s) (hd : s.peer.mDetaching = false)
    (hbuf : s.peer.mReadbuf.length = HEADER_SIZE)
    (hread : s.received = frames.encodeAll s.delivered ++ s.unread)
    (hn : HEADER_SIZE ≤ s.unread.length) :
    Inv (s.finish recv HEADER_SIZE .success HEADER_SIZE .readHeader) := by
  obtain ⟨header, rest, hunread, hheader⟩ : ∃ header rest, s.unread = header ++ rest ∧
      header.length = HEADER_SIZE :=
    ⟨_, _, (List.take_append_drop HEADER_SIZE s.unread).symm, List.length_take_of_le hn⟩
  have hfinish := finish_header recv hd hbuf hheader hunread
  split_ifs at hfinish with hlarge
  · obtain ⟨hd', ht⟩ := hfinish
    exact inv_detaching h hd' (by rw [ht]) (by rw [ht]) (by rw [ht])
  · rw [hfinish]
    have hmax : beNat (header.take 4) ≤ maxBody := by omega
    refine ⟨h.fits, ?_, h.prefixed, ?_⟩
    · intro n hn
      rcases List.mem_append.mp hn with hn | hn
      · exact h.bounded n hn
      · obtain rfl := (Prod.mk.inj (List.mem_singleton.mp hn)).1
        exact hmax
    · intro _
      refine .body header hheader rfl hmax (List.take_left' hheader) ?_ ?_
      · simp [hheader]
      · simp only [hread, hunread]

lemma inv_body {s : Reader} (h : Inv s) (hd : s.peer.mDetaching = false) {header : Bytes}
    (hheader : header.length = HEADER_SIZE) (hmax : beNat (header.take 4) ≤ maxBody)
    (hkeep : s.peer.mReadbuf.take HEADER_SIZE = header)
    (hbuf : s.peer.mReadbuf.length = HEADER_SIZE + beNat (header.take 4))
    (hread : s.received = frames.encodeAll s.delivered ++ (header ++ s.unread))
    (hn : beNat (header.take 4) ≤ s.unread.length) :
    Inv (s.finish recv (beNat (header.take 4)) .success (beNat (header.take 4)) .readBody) := by
  obtain ⟨body, rest, hunread, hbody⟩ : ∃ body rest, s.unread = body ++ rest ∧
      body.length = beNat (header.take 4) :=
    ⟨_, _, (List.take_append_drop _ s.unread).symm, List.length_take_of_le hn⟩
  rw [← hbody] at hbuf hmax ⊢
  obtain ⟨hreceived, hrest, hdelivered, hnext⟩ := finish_body recv hd hheader hkeep hbuf hunread
  obtain ⟨hfits, hpack⟩ := pack_of_header hheader hbody hmax
  have hencode : frames.encodeAll [(beNat (header.drop 4), body)] = header ++ body := by
    rw [PrefixCode.encodeAll_cons, PrefixCode.encodeAll_nil, List.append_nil]
    exact hpack
  have hall : s.received =
      frames.encodeAll (s.delivered ++ [(beNat (header.drop 4), body)]) ++ rest := by
    rw [PrefixCode.encodeAll_append, hencode, hread, hunread]
    simp only [List.append_assoc]
  refine ⟨?_, ?_, ?_, ?_⟩
  · rw [hdelivered]
    intro m hm
    rcases List.mem_append.mp hm with hm | hm
    · exact h.fits m hm
    · obtain rfl := List.mem_singleton.mp hm
      exact hfits
  · intro n hn
    rcases hnext with ⟨_, _, hasked⟩ | ⟨_, _, _, hasked⟩
    · exact h.bounded n (hasked ▸ hn)
    · rw [hasked] at hn
      rcases List.mem_append.mp hn with hn | hn
      · exact h.bounded n hn
      · exact absurd (Prod.mk.inj (List.mem_singleton.mp hn)).2 (by decide)
  · rw [hdelivered, hreceived]
    exact ⟨rest, hall.symm⟩
  · intro hd'
    rcases hnext with ⟨hd'', _⟩ | ⟨_, hlength, hpending, _⟩
    · exact absurd (hd''.symm.trans hd') (by decide)
    · refine .header hpending hlength ?_
      rw [hreceived, hdelivered, hrest, hall]

lemma inv_complete {s t : Reader} (h : Inv s) (hc : complete recv s = some t) : Inv t := by
  rw [complete] at hc
  cases hd : s.peer.mDetaching with
  | true =>
    split at hc
    · next n handler hpending =>
      split_ifs at hc
      obtain rfl := Option.some.inj hc
      obtain ⟨hd', _, _, hreceived, hasked, hdelivered⟩ :=
        finish_detaching recv hd n .success n handler
      exact inv_detaching h hd' hreceived hasked hdelivered
    · cases hc
  | false =>
    cases h.reading hd with
    | header hpending hbuf hread =>
      rw [hpending] at hc
      simp only at hc
      split_ifs at hc with hn
      obtain rfl := Option.some.inj hc
      exact inv_header recv h hd hbuf hread hn
    | body header hheader hpending hmax hkeep hbuf hread =>
      rw [hpending] at hc
      simp only at hc
      split_ifs at hc with hn
      obtain rfl := Option.some.inj hc
      exact inv_body recv h hd hheader hmax hkeep hbuf hread hn

lemma inv_fail {s : Reader} (h : Inv s) (k n : ℕ) (handler : ReadHandler) {error : ErrorCode}
    (herror : error ≠ .success) : Inv (s.finish recv k error n handler) := by
  cases hd : s.peer.mDetaching with
  | true =>
    obtain ⟨hd', _, _, hreceived, hasked, hdelivered⟩ :=
      finish_detaching recv hd k error n handler
    exact inv_detaching h hd' hreceived hasked hdelivered
  | false =>
    obtain ⟨hd', hreceived, hasked, hdelivered⟩ := finish_error recv hd k herror n handler
    exact inv_detaching h hd' hreceived hasked hdelivered

/-- Another call changes neither the buffer nor what is read. -/
lemma inv_other {s : Reader} (h : Inv s) {p : Peer} (hbuf : p.mReadbuf = s.peer.mReadbuf)
    (hstays : s.peer.mDetaching = true → p.mDetaching = true) : Inv { s with peer := p } := by
  refine ⟨h.fits, h.bounded, h.prefixed, ?_⟩
  intro hd
  have hd' : s.peer.mDetaching = false := by
    by_contra hne
    exact absurd ((hstays (by simpa using hne)).symm.trans hd) (by decide)
  cases h.reading hd' with
  | header hpending hlength hread => exact .header hpending (by rw [hbuf]; exact hlength) hread
  | body header hheader hpending hmax hkeep hlength hread =>
    exact .body header hheader hpending hmax (by rw [hbuf]; exact hkeep) (by rw [hbuf]; exact hlength)
      hread

lemma inv_step {s t : Reader} (h : Inv s) (hstep : Step recv s t) : Inv t := by
  cases hstep with
  | arrive bytes => exact inv_arrive h bytes
  | complete _ hc => exact inv_complete recv h hc
  | fail n k handler error _ _ herror => exact inv_fail recv h k n handler herror
  | other p hbuf hstays => exact inv_other h hbuf hstays

lemma inv_reachable {p : Peer} (hp : p.mDetaching = false) {s : Reader} (h : Reachable recv p s) :
    Inv s := by
  induction h with
  | refl => exact inv_start hp
  | tail _ hstep ih => exact inv_step recv ih hstep

/-! ### The loop comes to rest -/

/-- It reads until the bytes do not suffice. -/
def Rests (s : Reader) : Prop := complete recv s = none

/-- What a completed read makes smaller. -/
def measure (s : Reader) : ℕ :=
  2 * s.unread.length + match s.pending with
    | none => 0
    | some (_, .readHeader) => 1
    | some (_, .readBody) => 2

lemma complete_some {s t : Reader} (h : complete recv s = some t) :
    ∃ n handler, s.pending = some (n, handler) ∧ n ≤ s.unread.length ∧
      t = s.finish recv n .success n handler := by
  rw [complete] at h
  split at h
  · next n handler hpending =>
    split_ifs at h with hn
    exact ⟨n, handler, hpending, hn, (Option.some.inj h).symm⟩
  · cases h

lemma measure_lt {s t : Reader} (h : Inv s) (hc : complete recv s = some t) :
    measure t < measure s := by
  obtain ⟨n, handler, hpending, hn, rfl⟩ := complete_some recv hc
  have hunread : (s.finish recv n .success n handler).unread.length = s.unread.length - n := by
    rw [Reader.finish, Reader.after, List.length_drop]
  cases hd : s.peer.mDetaching with
  | true =>
    have hnone := (finish_detaching recv hd n .success n handler).2.1
    simp only [measure, hpending, hnone, hunread]
    cases handler <;> simp only <;> omega
  | false =>
    cases h.reading hd with
    | header hheader _ _ =>
      -- six bytes are gone
      obtain ⟨rfl, rfl⟩ := Prod.mk.inj (Option.some.inj (hpending.symm.trans hheader))
      have h6 : HEADER_SIZE = 6 := rfl
      simp only [measure, hpending, hunread]
      split <;> omega
    | body header hheader hbody hmax hkeep hbuf _ =>
      -- whatever the length, the next read is of a header
      obtain ⟨rfl, rfl⟩ := Prod.mk.inj (Option.some.inj (hpending.symm.trans hbody))
      have hlength : (s.unread.take (beNat (header.take 4))).length = beNat (header.take 4) :=
        List.length_take_of_le hn
      obtain ⟨_, _, _, hnext⟩ := finish_body recv hd hheader hkeep (by rw [hlength, hbuf])
        (List.take_append_drop (beNat (header.take 4)) s.unread).symm
      rw [hlength] at hnext
      rcases hnext with ⟨_, hpending', _⟩ | ⟨_, _, hpending', _⟩ <;>
        simp only [measure, hpending, hpending', hunread] <;> omega

/-- **From every state the loop comes to rest.** -/
theorem loop_rests {p : Peer} (hp : p.mDetaching = false) {s : Reader} (h : Reachable recv p s) :
    ∃ n, Reachable recv p (loop recv n s) ∧ Rests recv (loop recv n s) ∧
      (loop recv n s).received = s.received := by
  induction hm : measure s using Nat.strong_induction_on generalizing s with
  | _ m ih =>
    cases hc : complete recv s with
    | none => exact ⟨0, h, hc, rfl⟩
    | some t =>
      have hlt := measure_lt recv (inv_reachable recv hp h) hc
      obtain ⟨n, hreach, hrests, hreceived⟩ := ih _ (hm ▸ hlt) (h.tail (.complete s t hc)) rfl
      have hloop : loop recv (n + 1) s = loop recv n t := by rw [loop, hc, Option.elim_some]
      obtain ⟨k, handler, _, _, rfl⟩ := complete_some recv hc
      exact ⟨n + 1, hloop ▸ hreach, hloop ▸ hrests, hloop ▸ hreceived⟩

/-! ### What has been delivered -/

section Delivered

variable {recv} {s : Reader} {ms : List Message}

/-- **Nothing is delivered but the messages written**, as far as they go; `tail` does not begin with
one. -/
lemma delivered_prefix (h : Inv s) {tail : Bytes} (hms : ∀ m ∈ ms, Fits m)
    (htail : ∀ m z, Fits m → tail ≠ frames.encode m ++ z)
    (hreceived : s.received = frames.encodeAll ms ++ tail) :
    ∃ rest, ms = s.delivered ++ rest := by
  obtain ⟨x, hx⟩ := h.prefixed
  obtain ⟨rest, hrest, _⟩ :=
    PrefixCode.encodeAll_prefix (c := frames) h.fits hms htail (hx.trans hreceived)
  exact ⟨rest, hrest⟩

/-- What an undetached peer that rests still lacks: a header, or the body of one. -/
lemma rests_reading (h : Inv s) (hd : s.peer.mDetaching = false) (hrests : Rests recv s) :
    ∃ kept, s.received = frames.encodeAll s.delivered ++ (kept ++ s.unread) ∧
      ((kept = [] ∧ s.unread.length < HEADER_SIZE) ∨
        (kept.length = HEADER_SIZE ∧ beNat (kept.take 4) ≤ maxBody ∧
          s.unread.length < beNat (kept.take 4))) := by
  unfold Rests complete at hrests
  cases h.reading hd with
  | header hpending _ hread =>
    rw [hpending] at hrests
    simp only at hrests
    split_ifs at hrests with hn
    exact ⟨[], hread, Or.inl ⟨rfl, by omega⟩⟩
  | body header hheader hpending hmax _ _ hread =>
    rw [hpending] at hrests
    simp only at hrests
    split_ifs at hrests with hn
    exact ⟨header, hread, Or.inr ⟨hheader, hmax, by omega⟩⟩

/-- So it rests only when every message written has been delivered. -/
lemma rests_all (h : Inv s) (hd : s.peer.mDetaching = false) (hrests : Rests recv s)
    {rest : List Message} {tail : Bytes} (hrest : ∀ m ∈ rest, Fits m)
    (hreceived : s.received = frames.encodeAll (s.delivered ++ rest) ++ tail) :
    rest = [] ∧ ((s.unread = tail ∧ s.unread.length < HEADER_SIZE) ∨
      ∃ kept : Bytes, kept.length = HEADER_SIZE ∧ beNat (kept.take 4) ≤ maxBody ∧
        tail = kept ++ s.unread) := by
  obtain ⟨kept, hread, hlacks⟩ := rests_reading h hd hrests
  rw [hreceived, PrefixCode.encodeAll_append, List.append_assoc] at hread
  have hleft := List.append_cancel_left hread
  cases rest with
  | nil =>
    refine ⟨rfl, ?_⟩
    rcases hlacks with ⟨rfl, hlt⟩ | ⟨hkept, hmax, _⟩
    · exact Or.inl ⟨hleft.symm, hlt⟩
    · exact Or.inr ⟨kept, hkept, hmax, hleft⟩
  | cons m rest =>
    exfalso
    obtain ⟨header, hheader, hpack, hlength, _⟩ := header_pack (hrest m List.mem_cons_self)
    have hword : frames.encode m = header ++ m.2 := hpack
    rw [PrefixCode.encodeAll_cons, hword, List.append_assoc, List.append_assoc] at hleft
    rcases hlacks with ⟨rfl, hlt⟩ | ⟨hkept, _, hlt⟩
    · have hall := congrArg List.length hleft
      simp only [List.length_append, List.nil_append, hheader] at hall
      omega
    · obtain ⟨rfl, hbody⟩ := List.append_inj hleft (hheader.trans hkept.symm)
      have hall := congrArg List.length hbody
      simp only [List.length_append] at hall
      omega

end Delivered

/-- A header announcing too much is not that of a packed message. -/
lemma oversize_ne {header : Bytes} (hheader : header.length = HEADER_SIZE)
    (hlarge : maxBody < beNat (header.take 4)) (rest : Bytes) (m : Message) (z : Bytes) (hm : Fits m) :
    header ++ rest ≠ frames.encode m ++ z := by
  intro h
  obtain ⟨header', hheader', hpack, hlength, _⟩ := header_pack hm
  have hword : frames.encode m = header' ++ m.2 := hpack
  rw [hword, List.append_assoc] at h
  obtain ⟨rfl, _⟩ := List.append_inj h (hheader.trans hheader'.symm)
  exact absurd hm.2 (by omega)

/-- A header is read: a peer detaches if and only if it announces too much, and hands nothing on. -/
lemma complete_header {s t : Reader} (h : Inv s) (hd : s.peer.mDetaching = false)
    (hpending : s.pending = some (HEADER_SIZE, .readHeader)) (hc : complete recv s = some t) :
    (t.peer.mDetaching = true ↔ maxBody < PackedMessage.getLength (s.unread.take HEADER_SIZE)) ∧
      t.delivered = s.delivered ∧ (t.peer.mDetaching = true → t.asked = s.asked) := by
  obtain ⟨n, handler, hpending', hn, rfl⟩ := complete_some recv hc
  obtain ⟨rfl, rfl⟩ := Prod.mk.inj (Option.some.inj (hpending'.symm.trans hpending))
  have hheader : (s.unread.take HEADER_SIZE).length = HEADER_SIZE := List.length_take_of_le hn
  have hlength : PackedMessage.getLength (s.unread.take HEADER_SIZE) =
      beNat ((s.unread.take HEADER_SIZE).take 4) := by
    have happend := getLength_append hheader []
    rwa [List.append_nil] at happend
  have hbuf : s.peer.mReadbuf.length = HEADER_SIZE := by
    cases h.reading hd with
    | header _ hbuf _ => exact hbuf
    | body _ _ hbody _ _ _ _ =>
      exact absurd (Prod.mk.inj (Option.some.inj (hpending.symm.trans hbody))).2 (by decide)
  have hfinish := finish_header recv hd hbuf hheader (List.take_append_drop HEADER_SIZE s.unread).symm
  rw [hlength]
  split_ifs at hfinish with hlarge
  · obtain ⟨hd', ht⟩ := hfinish
    exact ⟨⟨fun _ => hlarge, fun _ => hd'⟩, by rw [ht], fun _ => by rw [ht]⟩
  · have hd' : (s.finish recv HEADER_SIZE .success HEADER_SIZE .readHeader).peer.mDetaching = false := by
      rw [hfinish]
      exact hd
    refine ⟨⟨fun ht => ?_, fun hlt => absurd hlt hlarge⟩, by rw [hfinish], fun ht => ?_⟩
    all_goals exact absurd (ht.symm.trans hd') (by decide)

/-- Of messages that have come in whole, all are delivered once the loop rests. -/
lemma delivered_packed {s : Reader} (h : Inv s) {ms : List Message} (hms : ∀ m ∈ ms, Fits m)
    (hreceived : s.received = frames.encodeAll ms) :
    s.delivered <+: ms ∧ (Rests recv s → s.peer.mDetaching = false → s.delivered = ms ∧ s.unread = []) := by
  have hnil (m : Message) (z : Bytes) (hm : Fits m) : [] ≠ frames.encode m ++ z := fun hnil =>
    frames.ne_nil m hm (List.append_eq_nil_iff.mp hnil.symm).1
  rw [← List.append_nil (frames.encodeAll ms)] at hreceived
  obtain ⟨rest, rfl⟩ := delivered_prefix h hms hnil hreceived
  refine ⟨List.prefix_append _ _, ?_⟩
  intro hrests hd
  obtain ⟨rfl, hleft⟩ := rests_all h hd hrests (fun m hm => hms m (List.mem_append_right _ hm)) hreceived
  refine ⟨(List.append_nil _).symm, ?_⟩
  rcases hleft with ⟨hunread, _⟩ | ⟨kept, _, _, htail⟩
  · exact hunread
  · exact (List.append_eq_nil_iff.mp htail.symm).2

/-- Before a header that announces too much, the messages are delivered; there the loop does not rest
undetached. -/
lemma delivered_oversize {s : Reader} (h : Inv s) {ms : List Message} {header rest : Bytes}
    (hms : ∀ m ∈ ms, Fits m) (hheader : header.length = HEADER_SIZE)
    (hlarge : maxBody < PackedMessage.getLength header)
    (hreceived : s.received = frames.encodeAll ms ++ (header ++ rest)) :
    s.delivered <+: ms ∧ (Rests recv s → s.peer.mDetaching = true) := by
  have hlarge' : maxBody < beNat (header.take 4) := by
    have happend := getLength_append hheader []
    rwa [List.append_nil, ← happend] at *
  obtain ⟨rest', rfl⟩ := delivered_prefix h hms (oversize_ne hheader hlarge' rest) hreceived
  refine ⟨List.prefix_append _ _, ?_⟩
  intro hrests
  by_contra hd
  obtain ⟨_, hleft⟩ := rests_all h (by simpa using hd) hrests
    (fun m hm => hms m (List.mem_append_right _ hm)) hreceived
  rcases hleft with ⟨hunread, hlt⟩ | ⟨kept, hkept, hmax, htail⟩
  · have hall := congrArg List.length hunread
    simp only [List.length_append, hheader] at hall
    omega
  · obtain ⟨rfl, _⟩ := List.append_inj htail (hheader.trans hkept.symm)
    omega

/-- **Message framing is exact.**  In every state of every run the loop comes to rest from what has come
in, and:

* if that is packed messages, they are delivered in order, and at rest all of them, with no byte left,
  unless the peer detaches;
* whatever it is, no body of more than `maxBody` bytes was asked for, and the messages delivered are
  the one reading of a part of it at the front;
* where a header announces more, nothing from there on is delivered, and the loop does not rest
  undetached; it is that very header that detaches the peer, and no header announcing less does. -/
theorem framing_exact (p : Peer) (hp : p.mDetaching = false) (s : Reader) (h : Reachable recv p s) :
    (∃ n, Reachable recv p (loop recv n s) ∧ Rests recv (loop recv n s) ∧
      (loop recv n s).received = s.received) ∧
    (∀ ms : List Message, (∀ m ∈ ms, Fits m) → s.received = frames.encodeAll ms →
      s.delivered <+: ms ∧
        (Rests recv s → s.peer.mDetaching = false → s.delivered = ms ∧ s.unread = [])) ∧
    (∀ n, (n, ReadHandler.readBody) ∈ s.asked → n ≤ maxBody) ∧
    (frames.encodeAll s.delivered <+: s.received ∧ (∀ m ∈ s.delivered, Fits m) ∧
      ∀ ms : List Message, (∀ m ∈ ms, Fits m) → frames.encodeAll ms <+: s.received →
        ms.length = s.delivered.length → ms = s.delivered) ∧
    (∀ (ms : List Message) (header rest : Bytes), (∀ m ∈ ms, Fits m) → header.length = HEADER_SIZE →
      maxBody < PackedMessage.getLength header → s.received = frames.encodeAll ms ++ (header ++ rest) →
      s.delivered <+: ms ∧ (Rests recv s → s.peer.mDetaching = true)) ∧
    (∀ t, s.peer.mDetaching = false → s.pending = some (HEADER_SIZE, .readHeader) →
      complete recv s = some t →
      (t.peer.mDetaching = true ↔ maxBody < PackedMessage.getLength (s.unread.take HEADER_SIZE)) ∧
        t.delivered = s.delivered ∧ (t.peer.mDetaching = true → t.asked = s.asked)) := by
  have hinv := inv_reachable recv hp h
  refine ⟨loop_rests recv hp h, fun ms hms hreceived => delivered_packed recv hinv hms hreceived, hinv.bounded,
    ⟨hinv.prefixed, hinv.fits, fun ms hms hprefix hlength => ?_⟩,
    fun ms header rest hms hheader hlarge hreceived => delivered_oversize recv hinv hms hheader hlarge hreceived,
    fun t hd hpending hc => complete_header recv hinv hd hpending hc⟩
  obtain ⟨x, hx⟩ := hinv.prefixed
  obtain ⟨y, hy⟩ := hprefix
  exact PrefixCode.encodeAll_unique (c := frames) hms hinv.fits hlength (hy.trans hx.symm)

/-- One message comes in whole. -/
def oneMessage : Reader :=
  { start (create true) with
    received := frames.encodeAll [(mtHELLO, [7])]
    unread := frames.encodeAll [(mtHELLO, [7])] }

theorem framing_exact_oneMessage :
    (loop default 2 oneMessage).delivered = [(mtHELLO, [7])] ∧ oneMessage.delivered <+: [(mtHELLO, [7])] := by
  have h : Reachable default (create true) oneMessage := Relation.ReflTransGen.refl.tail (.arrive _ _)
  have hfits : ∀ m ∈ [((mtHELLO, [7]) : Message)], Fits m := by
    intro m hm
    obtain rfl := List.mem_singleton.mp hm
    exact ⟨by decide, by decide⟩
  exact ⟨by rfl, ((framing_exact default (create true) rfl oneMessage h).2.1 _ hfits rfl).1⟩

end Newcoin.Peer.Framing
