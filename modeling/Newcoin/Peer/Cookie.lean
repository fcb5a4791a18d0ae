import Newcoin.BaseUInt
import Newcoin.Machine

/-!
# The session cookie

`getSessionCookie` compares the buffers that it has the Finished messages in, and not their hashes; a buffer
is longer than a message, and behind the message it holds what was on the stack.  `LookAlike` says when two
messages are taken for one, and `session_cookie_iff` when the two ends of a connection agree.
-/

namespace Newcoin.Peer.Cookie

/-- A Finished message. -/
structure Finished where
  bytes : Bytes
  atLeast : 12 ≤ bytes.length
  atMost : bytes.length ≤ 64

/-- `unsigned char s1[1024]`, before it is written to. -/
structure Buffer where
  bytes : Bytes
  size : bytes.length = 1024

/-- `SSL_get_finished(ssl, buf, sizeof(buf))`: the buffer after it. -/
def fill (msg buf : Bytes) : Bytes := msg.take buf.length ++ buf.drop msg.length

/-- What the connection has: the message sent, and the one received. -/
structure Ssl where
  finished : Bytes
  peer_finished : Bytes
  deriving DecidableEq, Repr

variable (SHA512 : Bytes → BaseUInt 512)

/-- `sha1[i] ^= sha2[i]`. -/
def xorBytes (sha1 sha2 : Bytes) : Bytes := List.zipWith (· ^^^ ·) sha1 sha2

/-- `getSessionCookie`, with what is in the buffers before. -/
def getSessionCookie (native_handle : Option Ssl) (s1 s2 : Bytes) : Except Fault Bytes :=
  match native_handle with
  | none => .error (.runtimeError "No underlying connection")
  | some ssl =>
    let s1 := fill ssl.finished s1
    let l1 := ssl.finished.length
    let s2 := fill ssl.peer_finished s2
    let l2 := ssl.peer_finished.length
    if l1 < 12 ∨ l2 < 12 then .error (.runtimeError s!"Connection setup not complete: {l1} {l2}")
    else
      let sha1 := (SHA512 (s1.take l1)).bytes
      let sha2 := (SHA512 (s2.take l2)).bytes
      if s1.take sha1.length = s2.take sha1.length then .error (.runtimeError "Identical finished messages")
      else .ok (xorBytes sha1 sha2)

/-! ### Messages that are taken for one -/

/-- The bytes behind the shorter message continue it to the longer one, and behind that one the buffers
agree, up to 64 bytes. -/
def Continues (short long x y : Bytes) : Prop :=
  short <+: long ∧ (x.take long.length).drop short.length = long.drop short.length ∧
    (x.take 64).drop long.length = (y.take 64).drop long.length

/-- The messages `m1` in the buffer `x1` and `m2` in the buffer `x2` do not differ in 64 bytes. -/
def LookAlike (m1 m2 x1 x2 : Bytes) : Prop :=
  if m1.length ≤ m2.length then Continues m1 m2 x1 x2 else Continues m2 m1 x2 x1

section Buffers

variable {m m1 m2 x x1 x2 short long y : Bytes}

lemma fill_eq (hm : m.length ≤ 64) (hx : x.length = 1024) : fill m x = m ++ x.drop m.length := by
  rw [fill, List.take_of_length_le (by omega)]

/-- What is hashed is the message. -/
lemma take_fill_length (hm : m.length ≤ 64) (hx : x.length = 1024) : (fill m x).take m.length = m := by
  rw [fill_eq hm hx, List.take_left]

/-- What is compared is the message and what lies behind it. -/
lemma take_fill (hm : m.length ≤ 64) (hx : x.length = 1024) :
    (fill m x).take 64 = m ++ (x.take 64).drop m.length := by
  rw [fill_eq hm hx, List.take_append, List.take_of_length_le hm, List.drop_take]

lemma append_eq_iff (hle : short.length ≤ long.length) {rest : Bytes}
    (hrest : rest.length = long.length - short.length) :
    short ++ rest = long ↔ short <+: long ∧ rest = long.drop short.length := by
  constructor
  · rintro rfl
    exact ⟨List.prefix_append _ _, List.drop_left.symm⟩
  · rintro ⟨⟨tail, rfl⟩, rfl⟩
    rw [List.drop_left]

lemma continues_iff (hle : short.length ≤ long.length) (hlong : long.length ≤ 64) (hx : x.length = 1024) :
    short ++ (x.take 64).drop short.length = long ++ (y.take 64).drop long.length ↔ Continues short long x y := by
  have hmiddle : ((x.take long.length).drop short.length).length = long.length - short.length := by
    rw [List.length_drop, List.length_take]
    omega
  have hsplit : (x.take 64).drop short.length =
      (x.take long.length).drop short.length ++ (x.take 64).drop long.length := by
    have hcut : (x.take 64).take long.length = x.take long.length := by
      rw [List.take_take, Nat.min_eq_left hlong]
    conv_lhs => rw [← List.take_append_drop long.length (x.take 64), hcut]
    refine List.drop_append_of_le_length ?_
    rw [List.length_take]
    omega
  have hlen : (short ++ (x.take long.length).drop short.length).length = long.length := by
    rw [List.length_append]
    omega
  rw [hsplit, ← List.append_assoc, List.append_eq_append_iff_of_size_eq_left hlen, append_eq_iff hle hmiddle, Continues,
    and_assoc]

/-- What `memcmp` finds equal. -/
lemma take_fill_eq_iff (h1 : m1.length ≤ 64) (h2 : m2.length ≤ 64) (hx1 : x1.length = 1024)
    (hx2 : x2.length = 1024) : (fill m1 x1).take 64 = (fill m2 x2).take 64 ↔ LookAlike m1 m2 x1 x2 := by
  rw [take_fill h1 hx1, take_fill h2 hx2, LookAlike]
  split_ifs with hle
  · exact continues_iff hle h2 hx1
  · rw [eq_comm]
    exact continues_iff (by omega) h1 hx2

/-- A message looks like itself if the buffers agree behind it. -/
lemma lookAlike_self : LookAlike m m x1 x2 ↔ (x1.take 64).drop m.length = (x2.take 64).drop m.length := by
  rw [LookAlike, if_pos le_rfl, Continues, and_iff_right (List.prefix_refl m), and_iff_right]
  rw [List.drop_eq_nil_of_le le_rfl, List.drop_eq_nil_of_le]
  rw [List.length_take]
  exact Nat.min_le_left _ _

end Buffers

/-! ### Both ends -/

lemma getSessionCookie_eq (m1 m2 : Finished) (x1 x2 : Buffer)
    [Decidable (LookAlike m1.bytes m2.bytes x1.bytes x2.bytes)] :
    getSessionCookie SHA512 (some ⟨m1.bytes, m2.bytes⟩) x1.bytes x2.bytes =
      if LookAlike m1.bytes m2.bytes x1.bytes x2.bytes then .error (.runtimeError "Identical finished messages")
      else .ok (xorBytes (SHA512 m1.bytes).bytes (SHA512 m2.bytes).bytes) := by
  have hsize : (SHA512 m1.bytes).bytes.length = 64 := (SHA512 m1.bytes).size
  have h1 := m1.atLeast
  have h2 := m2.atLeast
  rw [getSessionCookie]
  simp only [take_fill_length m1.atMost x1.size, take_fill_length m2.atMost x2.size, hsize]
  rw [if_neg (by omega)]
  exact if_congr (take_fill_eq_iff m1.atMost m2.atMost x1.size x2.size) rfl rfl

lemma xorBytes_comm (sha1 sha2 : Bytes) : xorBytes sha1 sha2 = xorBytes sha2 sha1 :=
  List.zipWith_comm_of_comm UInt8.xor_comm

/-- Only equal hashes cancel. -/
lemma eq_of_xorBytes_zero {sha1 sha2 : Bytes} (hlen : sha1.length = sha2.length)
    (hzero : ∀ b ∈ xorBytes sha1 sha2, b = 0) : sha1 = sha2 := by
  induction sha1 generalizing sha2 with
  | nil => exact (List.length_eq_zero_iff.1 hlen.symm).symm
  | cons a sha1 ih =>
    cases sha2 with
    | nil => cases hlen
    | cons b sha2 =>
      have hhead : a ^^^ b = 0 := hzero _ List.mem_cons_self
      have htail := ih (Nat.succ.inj hlen) fun c hc => hzero c (List.mem_cons_of_mem _ hc)
      rw [UInt8.xor_eq_zero_iff.1 hhead, htail]

/-- What the cookie is to be, of the end that sent `m1` and the end that sent `m2`. -/
structure Shared (SHA512 : Bytes → BaseUInt 512) (m1 m2 : Finished) (x1 x2 y1 y2 : Buffer) : Prop where
  same : (∃ e e', getSessionCookie SHA512 (some ⟨m1.bytes, m2.bytes⟩) x1.bytes x2.bytes = .error e ∧
      getSessionCookie SHA512 (some ⟨m2.bytes, m1.bytes⟩) y1.bytes y2.bytes = .error e') ∨
    ∃ strDst, getSessionCookie SHA512 (some ⟨m1.bytes, m2.bytes⟩) x1.bytes x2.bytes = .ok strDst ∧
      getSessionCookie SHA512 (some ⟨m2.bytes, m1.bytes⟩) y1.bytes y2.bytes = .ok strDst
  identical : m1.bytes = m2.bytes → ∃ e e',
    getSessionCookie SHA512 (some ⟨m1.bytes, m2.bytes⟩) x1.bytes x2.bytes = .error e ∧
      getSessionCookie SHA512 (some ⟨m2.bytes, m1.bytes⟩) y1.bytes y2.bytes = .error e'
  collision : ∀ strDst,
    (getSessionCookie SHA512 (some ⟨m1.bytes, m2.bytes⟩) x1.bytes x2.bytes = .ok strDst ∨
      getSessionCookie SHA512 (some ⟨m2.bytes, m1.bytes⟩) y1.bytes y2.bytes = .ok strDst) →
    (∀ b ∈ strDst, b = 0) → m1.bytes ≠ m2.bytes ∧ SHA512 m1.bytes = SHA512 m2.bytes

/-- **When the two ends agree**: the messages look alike at the one if they do at the other, and a message
looks like itself. -/
theorem session_cookie_iff (SHA512 : Bytes → BaseUInt 512) (m1 m2 : Finished) (x1 x2 y1 y2 : Buffer) :
    Shared SHA512 m1 m2 x1 x2 y1 y2 ↔
      (LookAlike m1.bytes m2.bytes x1.bytes x2.bytes ↔ LookAlike m2.bytes m1.bytes y1.bytes y2.bytes) ∧
      (m1.bytes = m2.bytes → LookAlike m1.bytes m2.bytes x1.bytes x2.bytes) := by
  classical
  have hx := getSessionCookie_eq SHA512 m1 m2 x1 x2
  have hy := getSessionCookie_eq SHA512 m2 m1 y1 y2
  rw [xorBytes_comm] at hy
  constructor
  · rintro ⟨hsame, hidentical, -⟩
    rw [hx, hy] at hsame hidentical
    refine ⟨?_, fun heq => ?_⟩
    · rcases hsame with ⟨e, e', he, he'⟩ | ⟨strDst, hok, hok'⟩
      · exact iff_of_true (by_contra fun h => by simp [h] at he) (by_contra fun h => by simp [h] at he')
      · exact iff_of_false (fun h => by simp [h] at hok) (fun h => by simp [h] at hok')
    · obtain ⟨e, -, he, -⟩ := hidentical heq
      exact by_contra fun h => by simp [h] at he
  · rintro ⟨hiff, hself⟩
    by_cases h : LookAlike m1.bytes m2.bytes x1.bytes x2.bytes
    · rw [if_pos h] at hx
      rw [if_pos (hiff.1 h)] at hy
      refine ⟨.inl ⟨_, _, hx, hy⟩, fun _ => ⟨_, _, hx, hy⟩, ?_⟩
      rintro strDst (hok | hok) -
      · rw [hx] at hok
        cases hok
      · rw [hy] at hok
        cases hok
    · rw [if_neg h] at hx
      rw [if_neg (mt hiff.2 h)] at hy
      refine ⟨.inr ⟨_, hx, hy⟩, fun heq => absurd (hself heq) h, fun strDst hok hzero => ?_⟩
      have hdst : strDst = xorBytes (SHA512 m1.bytes).bytes (SHA512 m2.bytes).bytes := by
        rw [hx, hy] at hok
        rcases hok with hok | hok <;> exact (Except.ok.inj hok).symm
      rw [hdst] at hzero
      refine ⟨fun heq => h (hself heq), BaseUInt.ext (eq_of_xorBytes_zero ?_ hzero)⟩
      rw [(SHA512 m1.bytes).size, (SHA512 m2.bytes).size]

def sevens : Finished := ⟨List.replicate 12 7, by decide, by decide⟩

def stack (b : UInt8) : Buffer := ⟨List.replicate 1024 b, List.length_replicate⟩

/-- Two identical messages, and stacks that differ behind them: a cookie of zeros, whatever the hash. -/
theorem session_cookie_zeros :
    (∀ SHA512 : Bytes → BaseUInt 512,
      getSessionCookie SHA512 (some ⟨sevens.bytes, sevens.bytes⟩) (stack 0).bytes (stack 1).bytes =
        .ok (List.replicate 64 0)) ∧
    ∀ SHA512 : Bytes → BaseUInt 512, ¬ Shared SHA512 sevens sevens (stack 0) (stack 1) (stack 0) (stack 1) := by
  classical
  have hlook : ¬ LookAlike sevens.bytes sevens.bytes (stack 0).bytes (stack 1).bytes := by
    rw [lookAlike_self]
    decide +kernel
  have hcookie (SHA512 : Bytes → BaseUInt 512) :
      getSessionCookie SHA512 (some ⟨sevens.bytes, sevens.bytes⟩) (stack 0).bytes (stack 1).bytes =
        .ok (List.replicate 64 0) := by
    have hsize : (SHA512 sevens.bytes).bytes.length = 64 := (SHA512 sevens.bytes).size
    rw [getSessionCookie_eq, if_neg hlook, xorBytes, List.zipWith_self]
    simp [hsize]
  refine ⟨hcookie, fun SHA512 hshared => ?_⟩
  obtain ⟨e, -, he, -⟩ := hshared.identical rfl
  rw [hcookie] at he
  cases he

end Newcoin.Peer.Cookie
