import Newcoin.Peer.Framing

/-!
# Nothing but a hello before the hello

The `switch` of `processReadBuffer` over the read loop of `Framing`, with handlers of which no more is
known than that none but `recvHello` changes `mHelloed`.  A run keeps, beside its state, the peers that
`processReadBuffer` was called on; `Inv` is what they have in common, and `hello_gate` what follows.
-/

namespace Newcoin.Peer.Hello

open Framing

/-! ### The switch -/

inductive Handler
  | recvHello | recvErrorMessage | recvPing | recvGetContacts | recvContact | recvGetPeers | recvPeers
  | recvSearchTransaction | recvGetAccount | recvAccount | recvTransaction | recvStatus | recvPropose
  | recvGetLedger | recvLedger | recvHaveTxSet | recvValidation | recvGetObjectByHash | recvObjectByHash
  deriving DecidableEq, Repr

/-- `switch(type)`, by the numbers of the message types; `none` is the default. -/
def handlerOf (type : ℕ) : Option Handler :=
  match type with
  | 1 => some .recvHello
  | 2 => some .recvErrorMessage
  | 3 => some .recvPing
  | 10 => some .recvGetContacts
  | 11 => some .recvContact
  | 12 => some .recvGetPeers
  | 13 => some .recvPeers
  | 20 => some .recvSearchTransaction
  | 21 => some .recvGetAccount
  | 22 => some .recvAccount
  | 30 => some .recvTransaction
  | 34 => some .recvStatus
  | 33 => some .recvPropose
  | 31 => some .recvGetLedger
  | 32 => some .recvLedger
  | 35 => some .recvHaveTxSet
  | 41 => some .recvValidation
  | 42 => some .recvGetObjectByHash
  | 43 => some .recvObjectByHash
  | _ => none

/-- The parsers and the handlers.  They neither read from the socket nor process a message themselves,
and none takes `mDetaching` back. -/
structure Handlers where
  /-- `ParseFromArray` of the handler's message. -/
  parse : Handler → Bytes → Bool
  recv : Handler → Bytes → Peer → Peer × List Effect
  quiet : ∀ h body p, ∀ e ∈ (recv h body p).2,
    (∀ n handler, e ≠ .asyncRead n handler) ∧ ∀ type body, e ≠ .message type body
  stays : ∀ h body p, p.mDetaching = true → (recv h body p).1.mDetaching = true
  /-- Only `recvHello` may set `mHelloed`. -/
  helloed : ∀ h body p, h ≠ .recvHello → (recv h body p).1.mHelloed = p.mHelloed

variable (hs : Handlers)

/-- A case of the switch: the message is parsed and handled. -/
def dispatch (type : ℕ) (body : Bytes) (p : Peer) : Peer × List Effect :=
  match handlerOf type with
  | some h => if hs.parse h body then hs.recv h body p else (p, [])
  | none => (p, [])

def recv : Recv where
  run := dispatch hs
  quiet type body p e he := by
    unfold dispatch at he
    split at he
    · split_ifs at he
      · exact hs.quiet _ _ _ e he
      · cases he
    · cases he

/-- The type of the message in the buffer. -/
def typeOf (p : Peer) : ℕ := PackedMessage.getType p.mReadbuf

/-- The body of the message in the buffer. -/
def bodyOf (p : Peer) : Bytes := p.mReadbuf.drop HEADER_SIZE

/-- `mHelloed == (type == mtHELLO)`: a hello where there has been one, or anything else before. -/
def Wrong (p : Peer) : Prop := p.mHelloed = decide (typeOf p = mtHELLO)

instance : DecidablePred Wrong := fun p => by unfold Wrong; infer_instance

/-- The handler that `processReadBuffer` invokes, on the peer as it is then. -/
def invoked (p : Peer) : Option Handler :=
  if Wrong p then none
  else
    match handlerOf (typeOf p) with
    | some h => if hs.parse h (bodyOf p) then some h else none
    | none => none

/-- **What `processReadBuffer` does**: a wrong type detaches; else a handler is invoked, or nothing is
done. -/
lemma processReadBuffer_eq (p : Peer) : (p.processReadBuffer (recv hs).run).1 =
    match invoked hs p with
    | some h => (hs.recv h (bodyOf p) p).1
    | none => if Wrong p then p.detach.1 else p := by
  have hcall : (p.processReadBuffer (recv hs).run).1
      = if Wrong p then p.detach.1 else (dispatch hs (typeOf p) (bodyOf p) p).1 := by
    unfold processReadBuffer
    exact apply_ite Prod.fst ..
  rw [hcall, invoked, dispatch]
  by_cases hw : Wrong p
  · rw [if_pos hw, if_pos hw]
    simp only [if_pos hw]
  · rw [if_neg hw, if_neg hw]
    cases handlerOf (typeOf p) with
    | none => simp only [if_neg hw]
    | some h =>
      simp only
      by_cases hparse : hs.parse h (bodyOf p) = true
      · rw [if_pos hparse, if_pos hparse]
      · rw [if_neg hparse, if_neg hparse]
        simp only [if_neg hw]

lemma handlerOf_hello {type : ℕ} : handlerOf type = some .recvHello ↔ type = mtHELLO := by
  constructor
  · intro h
    unfold handlerOf at h
    split at h
    · rfl
    all_goals cases h
  · rintro rfl
    rfl

/-- The gate: `recvHello` before the hello, any other handler after it. -/
lemma invoked_hello {p : Peer} {h : Handler} (hp : invoked hs p = some h) :
    (h = .recvHello → p.mHelloed = false) ∧ (h ≠ .recvHello → p.mHelloed = true) := by
  unfold invoked at hp
  split_ifs at hp with hw
  unfold Wrong at hw
  have htype : handlerOf (typeOf p) = some h := by
    split at hp
    next h' hh =>
      split_ifs at hp
      rw [hh, hp]
    · cases hp
  constructor
  · rintro rfl
    rw [decide_eq_true (handlerOf_hello.1 htype)] at hw
    simpa using hw
  · intro hne
    have hhello : typeOf p ≠ mtHELLO := fun he => hne (Option.some.inj (htype.symm.trans (handlerOf_hello.2 he)))
    rw [decide_eq_false hhello] at hw
    simpa using hw

lemma detach_helloed (p : Peer) : p.detach.1.mHelloed = p.mHelloed := by
  unfold detach
  split_ifs <;> rfl

/-- A wrong type detaches. -/
lemma processReadBuffer_wrong {p : Peer} (h : Wrong p) :
    (p.processReadBuffer (recv hs).run).1.mDetaching = true := by
  have hnone : invoked hs p = none := by rw [invoked, if_pos h]
  rw [processReadBuffer_eq, hnone]
  simp only [if_pos h, detach_detaching]

/-- No message takes `mHelloed` back, and a hello alone sets it. -/
lemma processReadBuffer_helloed (p : Peer) : invoked hs p = some .recvHello ∨
    (p.processReadBuffer (recv hs).run).1.mHelloed = p.mHelloed := by
  rw [processReadBuffer_eq]
  cases hinvoked : invoked hs p with
  | none =>
    right
    simp only
    split_ifs
    · exact detach_helloed p
    · rfl
  | some h =>
    by_cases hh : h = .recvHello
    · exact .inl (congrArg some hh)
    · exact .inr (hs.helloed h (bodyOf p) p hh)

lemma processReadBuffer_kept {p : Peer} (h : p.mHelloed = true) :
    (p.processReadBuffer (recv hs).run).1.mHelloed = true := by
  rcases processReadBuffer_helloed hs p with hp | hp
  · rw [(invoked_hello hs hp).1 rfl] at h
    cases h
  · exact hp.trans h

lemma processReadBuffer_set {p : Peer} (h : (p.processReadBuffer (recv hs).run).1.mHelloed = true) :
    p.mHelloed = true ∨ invoked hs p = some .recvHello := by
  rcases processReadBuffer_helloed hs p with hp | hp
  · exact .inr hp
  · exact .inl (hp.symm.trans h)

lemma messages_processReadBuffer (p : Peer) :
    messages (p.processReadBuffer (recv hs).run).2 = [(typeOf p, bodyOf p)] := by
  unfold processReadBuffer
  simp only
  split_ifs
  · exact congrArg _ (messages_detach p)
  · exact congrArg _ (messages_eq_nil fun e he => ((recv hs).quiet _ _ _ e he).2)

/-! ### Runs -/

/-- The peer that `processReadBuffer` is called on when the pending read completes. -/
def processed (s : Reader) : Option Peer :=
  match s.pending with
  | some (n, .readBody) =>
    if s.peer.mDetaching then none
    else some { s.peer with mReadbuf := fill n (s.unread.take n) s.peer.mReadbuf }
  | _ => none

/-- The runs of the read loop from `p₀`, with the peers that `processReadBuffer` was called on. -/
inductive Run (p₀ : Peer) : Reader → List Peer → Prop
  | start : Run p₀ (start p₀) []
  | arrive {s : Reader} {log : List Peer} (bytes : Bytes) (h : Run p₀ s log) :
    Run p₀ { s with received := s.received ++ bytes, unread := s.unread ++ bytes } log
  | complete {s t : Reader} {log : List Peer} (h : Run p₀ s log) (hc : complete (recv hs) s = some t) :
    Run p₀ t (log ++ (processed s).toList)
  | fail {s : Reader} {log : List Peer} (n k : ℕ) (handler : ReadHandler) (error : ErrorCode) (h : Run p₀ s log)
      (hpending : s.pending = some (n, handler)) (hk : k ≤ n) (herror : error ≠ .success) :
    Run p₀ (s.finish (recv hs) k error n handler) log
  /-- Another call on the peer. -/
  | other {s : Reader} {log : List Peer} (p : Peer) (h : Run p₀ s log) (hbuf : p.mReadbuf = s.peer.mReadbuf)
      (hstays : s.peer.mDetaching = true → p.mDetaching = true) (hhello : p.mHelloed = s.peer.mHelloed) :
    Run p₀ { s with peer := p } log

/-! ### One step -/

/-- The call neither processes a message nor changes `mHelloed`. -/
structure Idle (p : Peer) (r : Peer × List Effect) : Prop where
  helloed : r.1.mHelloed = p.mHelloed
  stays : p.mDetaching = true → r.1.mDetaching = true
  silent : messages r.2 = []

lemma idle_self (p : Peer) : Idle p (p, []) := ⟨rfl, id, rfl⟩

lemma idle_detach (p : Peer) : Idle p p.detach := by
  exact ⟨detach_helloed p, fun _ => detach_detaching p, messages_detach p⟩

lemma idle_startReadHeader (p : Peer) : Idle p p.startReadHeader := by
  unfold startReadHeader
  split_ifs
  · exact idle_self p
  · exact ⟨rfl, id, rfl⟩

lemma startReadHeader_detaching (p : Peer) : p.startReadHeader.1.mDetaching = p.mDetaching := by
  unfold startReadHeader
  split_ifs <;> rfl

lemma idle_handleReadHeader (error : ErrorCode) (p : Peer) : Idle p (p.handleReadHeader error) := by
  unfold handleReadHeader startReadBody
  simp only
  split_ifs
  · exact idle_self p
  · exact idle_detach p
  · exact ⟨rfl, id, rfl⟩
  · exact idle_detach p

lemma idle_handleReadBody {error : ErrorCode} {p : Peer} (h : p.mDetaching = true ∨ error ≠ .success) :
    Idle p (p.handleReadBody (recv hs).run error) := by
  unfold handleReadBody
  split_ifs with hd herror
  · exact idle_self p
  · rcases h with h | h
    · exact absurd h hd
    · exact absurd herror h
  · exact idle_detach p

/-- The end of a read whose handler is idle. -/
lemma finish_idle {s : Reader} {k n : ℕ} {handler : ReadHandler} {error : ErrorCode}
    (h : ∀ p : Peer, p.mDetaching = s.peer.mDetaching → Idle p (handle (recv hs) handler error p)) :
    (s.finish (recv hs) k error n handler).peer.mHelloed = s.peer.mHelloed ∧
      (s.peer.mDetaching = true → (s.finish (recv hs) k error n handler).peer.mDetaching = true) ∧
      (s.finish (recv hs) k error n handler).delivered = s.delivered := by
  have hidle := h { s.peer with mReadbuf := fill n (s.unread.take k) s.peer.mReadbuf } rfl
  refine ⟨hidle.helloed, hidle.stays, ?_⟩
  rw [Reader.finish, Reader.after, hidle.silent, List.append_nil]

/-- What a completed read does to `mHelloed`, `mDetaching` and the messages. -/
lemma complete_cases {s t : Reader} (hc : complete (recv hs) s = some t) :
    (∃ p, processed s = some p ∧ s.peer.mDetaching = false ∧ p.mHelloed = s.peer.mHelloed ∧
      p.mDetaching = false ∧
      t.peer.mHelloed = (p.processReadBuffer (recv hs).run).1.mHelloed ∧
      t.peer.mDetaching = (p.processReadBuffer (recv hs).run).1.mDetaching ∧
      t.delivered = s.delivered ++ [(typeOf p, bodyOf p)]) ∨
    (processed s = none ∧ t.peer.mHelloed = s.peer.mHelloed ∧
      (s.peer.mDetaching = true → t.peer.mDetaching = true) ∧ t.delivered = s.delivered) := by
  obtain ⟨n, handler, hpending, hn, rfl⟩ := complete_some (recv hs) hc
  cases handler with
  | readHeader =>
    refine .inr ⟨by rw [processed, hpending], ?_⟩
    exact @finish_idle hs s n n .readHeader .success fun p _ => idle_handleReadHeader .success p
  | readBody =>
    cases hd : s.peer.mDetaching with
    | true =>
      obtain ⟨h1, h2, h3⟩ := @finish_idle hs s n n .readBody .success fun p hp =>
        idle_handleReadBody hs (.inl (hp.trans hd))
      exact .inr ⟨by rw [processed, hpending]; simp [hd], h1, fun _ => h2 hd, h3⟩
    | false =>
      let p : Peer := { s.peer with mReadbuf := fill n (s.unread.take n) s.peer.mReadbuf }
      have hbody : p.handleReadBody (recv hs).run .success =
          ((p.processReadBuffer (recv hs).run).1.startReadHeader.1, (p.processReadBuffer (recv hs).run).2 ++
            (p.processReadBuffer (recv hs).run).1.startReadHeader.2) := by
        unfold handleReadBody
        rw [if_neg (by simp [p, hd]), if_pos rfl]
      have hfinish : s.finish (recv hs) n .success n .readBody =
          { s with unread := s.unread.drop n }.after (p.handleReadBody (recv hs).run .success) := rfl
      have hidle := idle_startReadHeader (p.processReadBuffer (recv hs).run).1
      refine .inl ⟨p, by rw [processed, hpending]; simp [hd, p], rfl, rfl, hd, ?_⟩
      rw [hfinish, hbody]
      refine ⟨hidle.helloed, startReadHeader_detaching _, ?_⟩
      simp only [Reader.after, messages_append, messages_processReadBuffer, hidle.silent, List.append_nil]

/-- What a failed read does. -/
lemma fail_cases {s : Reader} (n k : ℕ) (handler : ReadHandler) {error : ErrorCode} (herror : error ≠ .success) :
    (s.finish (recv hs) k error n handler).peer.mHelloed = s.peer.mHelloed ∧
      (s.peer.mDetaching = true → (s.finish (recv hs) k error n handler).peer.mDetaching = true) ∧
      (s.finish (recv hs) k error n handler).delivered = s.delivered := by
  apply finish_idle
  intro p _
  cases handler with
  | readHeader => exact idle_handleReadHeader error p
  | readBody => exact idle_handleReadBody hs (.inr herror)

/-! ### The invariant -/

/-- A hello was handled on one of the peers. -/
def HelloIn (log : List Peer) : Prop := ∃ p ∈ log, invoked hs p = some .recvHello

/-- What the peers that `processReadBuffer` was called on have in common. -/
structure Inv (p₀ : Peer) (s : Reader) (log : List Peer) : Prop where
  delivered : s.delivered = log.map fun p => (typeOf p, bodyOf p)
  /-- A message of a wrong type is the last, and has detached the peer. -/
  wrong : ∀ pre p post, log = pre ++ p :: post → Wrong p → post = [] ∧ s.peer.mDetaching = true
  /-- `mHelloed` is not taken back. -/
  kept : ∀ p ∈ log, p.mHelloed = true → s.peer.mHelloed = true
  ordered : log.Pairwise fun p q => p.mHelloed = true → q.mHelloed = true
  /-- It is set by a hello. -/
  set : s.peer.mHelloed = true → p₀.mHelloed = true ∨ HelloIn hs log
  before : ∀ pre p post, log = pre ++ p :: post → p.mHelloed = true → p₀.mHelloed = true ∨ HelloIn hs pre

/-- A step that processes no message. -/
lemma Inv.idle {p₀ : Peer} {s t : Reader} {log : List Peer} (h : Inv hs p₀ s log)
    (hhello : t.peer.mHelloed = s.peer.mHelloed) (hstays : s.peer.mDetaching = true → t.peer.mDetaching = true)
    (hdelivered : t.delivered = s.delivered) : Inv hs p₀ t log where
  delivered := hdelivered.trans h.delivered
  wrong pre p post hlog hw := ⟨(h.wrong pre p post hlog hw).1, hstays (h.wrong pre p post hlog hw).2⟩
  kept p hp hh := hhello.trans (h.kept p hp hh)
  ordered := h.ordered
  set hh := h.set (hhello.symm.trans hh)
  before := h.before

/-- Where an entry stands in a log with one more. -/
lemma concat_split {log pre post : List Peer} {p q : Peer} (h : log ++ [p] = pre ++ q :: post) :
    (post = [] ∧ pre = log ∧ q = p) ∨ ∃ post', log = pre ++ q :: post' := by
  rcases List.eq_nil_or_concat' post with rfl | ⟨post', r, rfl⟩
  · obtain ⟨rfl, hq⟩ := List.append_inj' h rfl
    exact .inl ⟨rfl, rfl, (List.cons.inj hq).1.symm⟩
  · rw [← List.cons_append, ← List.append_assoc] at h
    exact .inr ⟨post', (List.append_inj' h rfl).1⟩

/-- A step that processes the message in the buffer of `p`. -/
lemma Inv.processed {p₀ p : Peer} {s t : Reader} {log : List Peer} (h : Inv hs p₀ s log)
    (hlive : s.peer.mDetaching = false) (hhello : p.mHelloed = s.peer.mHelloed)
    (hhello' : t.peer.mHelloed = (p.processReadBuffer (recv hs).run).1.mHelloed)
    (hdetach : t.peer.mDetaching = (p.processReadBuffer (recv hs).run).1.mDetaching)
    (hdelivered : t.delivered = s.delivered ++ [(typeOf p, bodyOf p)]) : Inv hs p₀ t (log ++ [p]) where
  delivered := by rw [hdelivered, h.delivered, List.map_append, List.map_singleton]
  wrong pre q post hlog hw := by
    rcases concat_split hlog with ⟨hpost, -, rfl⟩ | ⟨post', hlog'⟩
    · exact ⟨hpost, hdetach.trans (processReadBuffer_wrong hs hw)⟩
    · have hd := (h.wrong pre q post' hlog' hw).2
      rw [hlive] at hd
      cases hd
  kept q hq hh := by
    rw [hhello']
    refine processReadBuffer_kept hs ?_
    rcases List.mem_append.1 hq with hq | hq
    · exact hhello.trans (h.kept q hq hh)
    · rwa [← List.mem_singleton.1 hq]
  ordered := by
    refine List.pairwise_append.2 ⟨h.ordered, List.pairwise_singleton _ _, ?_⟩
    intro q hq r hr hh
    obtain rfl := List.mem_singleton.1 hr
    exact hhello.trans (h.kept q hq hh)
  set hh := by
    rcases processReadBuffer_set hs (hhello'.symm.trans hh) with hp | hp
    · refine (h.set (hhello.symm.trans hp)).imp_right ?_
      rintro ⟨q, hq, hinvoked⟩
      exact ⟨q, List.mem_append_left _ hq, hinvoked⟩
    · exact .inr ⟨p, List.mem_append_right _ (List.mem_singleton_self p), hp⟩
  before pre q post hlog hh := by
    rcases concat_split hlog with ⟨-, rfl, rfl⟩ | ⟨post', hlog'⟩
    · exact h.set (hhello.symm.trans hh)
    · exact h.before pre q post' hlog' hh

lemma inv_run {p₀ : Peer} {s : Reader} {log : List Peer} (h : Run hs p₀ s log) : Inv hs p₀ s log := by
  induction h with
  | start =>
    have hidle := idle_startReadHeader p₀
    exact
      { delivered := hidle.silent
        wrong := fun pre p post hlog => absurd hlog (by simp)
        kept := fun p hp => absurd hp List.not_mem_nil
        ordered := .nil
        set := fun hh => .inl (hidle.helloed.symm.trans hh)
        before := fun pre p post hlog => absurd hlog (by simp) }
  | arrive bytes _ ih => exact ih.idle hs rfl id rfl
  | complete _ hc ih =>
    rcases complete_cases hs hc with ⟨p, hp, hlive, hhello, -, h1, h2, h3⟩ | ⟨hp, h1, h2, h3⟩
    · rw [hp]
      exact ih.processed hs hlive hhello h1 h2 h3
    · rw [hp, Option.toList_none, List.append_nil]
      exact ih.idle hs h1 h2 h3
  | fail n k handler error _ _ _ herror ih =>
    obtain ⟨h1, h2, h3⟩ := fail_cases hs n k handler herror
    exact ih.idle hs h1 h2 h3
  | other p _ hbuf hstays hhello ih => exact ih.idle hs hhello hstays rfl

/-- Handlers of which `recvHello` takes every hello. -/
def openHandlers : Handlers where
  parse _ _ := true
  recv h _ p := if h = .recvHello then ({ p with mHelloed := true }, []) else (p, [])
  quiet h body p e he := by
    split_ifs at he
    all_goals cases he
  stays h body p hd := by
    split_ifs
    all_goals exact hd
  helloed h body p hne := by rw [if_neg hne]

end Newcoin.Peer.Hello
