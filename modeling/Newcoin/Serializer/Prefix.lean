import Newcoin.Serializer.Defs
import Newcoin.Lib.Window

/-!
# What the readers of length prefixes accept

`Announces p n`: the decoder takes the bytes `p` for a payload of `n` bytes.  `vlPrefix_cases` and
`getVL_cases` say all that can happen at a position: an announced prefix, the reserved byte 255, or
neither.  The canonical form of prefixes and the exceptions of `getVL`, `getVLLength` and
`getTaggedList` are read off them.
-/

namespace Newcoin

open Lib Serializer

/-! ### Prefixes -/

/-- The longest payload the encoder has a length prefix for. -/
def maxVL : ℕ := 918744

/-- The length prefix of `n` bytes; empty where there is none. -/
def vlHeader (n : ℕ) : Bytes := (encodeVL n).toOption.getD []

lemma encodeVL_eq {n : ℕ} (h : n ≤ maxVL) : encodeVL n = .ok (vlHeader n) := by
  unfold maxVL at h
  have : ∃ p, encodeVL n = .ok p := by
    unfold encodeVL
    split
    · exact ⟨_, rfl⟩
    · split
      · exact ⟨_, rfl⟩
      · rw [if_pos (by omega)]
        exact ⟨_, rfl⟩
  obtain ⟨p, hp⟩ := this
  rw [vlHeader, hp]
  rfl

/-- The bytes of the three length prefixes, as numbers. -/
lemma vlHeader_cases {n : ℕ} (hn : n ≤ maxVL) :
    (n ≤ 192 ∧ ∃ b1, vlHeader n = [b1] ∧ b1.toNat = n) ∨
    (193 ≤ n ∧ n ≤ 12480 ∧ ∃ b1 b2, vlHeader n = [b1, b2] ∧
      b1.toNat = 193 + (n - 193) / 256 ∧ b2.toNat = (n - 193) % 256) ∨
    (12481 ≤ n ∧ ∃ b1 b2 b3, vlHeader n = [b1, b2, b3] ∧
      b1.toNat = 241 + (n - 12481) / 65536 ∧ b2.toNat = (n - 12481) / 256 % 256 ∧
      b3.toNat = (n - 12481) % 256) := by
  unfold maxVL at hn
  unfold vlHeader encodeVL
  by_cases h1 : n ≤ 192
  · left
    rw [if_pos (by omega)]
    refine ⟨h1, _, rfl, ?_⟩
    simp only [toUChar_natCast, UInt8.toNat_ofNat']
    omega
  · right
    rw [if_neg (by omega)]
    by_cases h2 : n ≤ 12480
    · left
      rw [if_pos (by omega)]
      refine ⟨by omega, h2, _, _, rfl, ?_, ?_⟩ <;>
      · simp only [Int.shiftRight_eq_div_pow, toUChar, UInt8.toNat_ofNat']
        omega
    · right
      rw [if_neg (by omega), if_pos (by omega)]
      refine ⟨by omega, _, _, _, rfl, ?_, ?_, ?_⟩ <;>
      · simp only [Int.shiftRight_eq_div_pow, toUChar, UInt8.toNat_ofNat']
        omega

/-- The prefixes that the decoder accepts, with the length each announces. -/
inductive Announces : Bytes → ℕ → Prop
  | one {b1 : UInt8} (h : b1.toNat ≤ 192) : Announces [b1] b1.toNat
  | two {b1 : UInt8} (b2 : UInt8) (h : 193 ≤ b1.toNat) (h' : b1.toNat ≤ 240) :
    Announces [b1, b2] (193 + (b1.toNat - 193) * 256 + b2.toNat)
  | three {b1 : UInt8} (b2 b3 : UInt8) (h : 241 ≤ b1.toNat) (h' : b1.toNat ≤ 254) :
    Announces [b1, b2, b3] (12481 + (b1.toNat - 241) * 65536 + b2.toNat * 256 + b3.toNat)

namespace Announces

variable {p q : Bytes} {n : ℕ}

lemma length_le (h : Announces p n) : p.length ≤ 3 ∧ n ≤ 929984 := by
  cases h with
  | @one b1 h => exact ⟨by simp, by omega⟩
  | @two b1 b2 h h' =>
    have := b2.toNat_lt
    exact ⟨by simp, by omega⟩
  | @three b1 b2 b3 h h' =>
    have := b2.toNat_lt
    have := b3.toNat_lt
    exact ⟨by simp, by omega⟩

/-- **No length has two prefixes.** -/
theorem unique (hp : Announces p n) (hq : Announces q n) : p = q := by
  generalize hm : n = m at hq
  cases hp with
  | @one b1 h =>
    cases hq with
    | @one c1 k => rw [UInt8.toNat_inj.1 hm]
    | @two c1 c2 k k' => omega
    | @three c1 c2 c3 k k' => omega
  | @two b1 b2 h h' =>
    have := b2.toNat_lt
    cases hq with
    | @one c1 k => omega
    | @two c1 c2 k k' =>
      have := c2.toNat_lt
      rw [UInt8.toNat_inj.1 (show b1.toNat = c1.toNat by omega), UInt8.toNat_inj.1 (show b2.toNat = c2.toNat by omega)]
    | @three c1 c2 c3 k k' => omega
  | @three b1 b2 b3 h h' =>
    have := b2.toNat_lt
    have := b3.toNat_lt
    cases hq with
    | @one c1 k => omega
    | @two c1 c2 k k' =>
      have := c2.toNat_lt
      omega
    | @three c1 c2 c3 k k' =>
      have := c2.toNat_lt
      have := c3.toNat_lt
      rw [UInt8.toNat_inj.1 (show b1.toNat = c1.toNat by omega),
        UInt8.toNat_inj.1 (show b2.toNat = c2.toNat by omega),
        UInt8.toNat_inj.1 (show b3.toNat = c3.toNat by omega)]

/-- What the encoder writes, the decoder accepts. -/
lemma vlHeader (hn : n ≤ maxVL) : Announces (vlHeader n) n := by
  unfold maxVL at hn
  rcases vlHeader_cases hn with ⟨h1, b1, e, h2⟩ | ⟨h1, h1', b1, b2, e, h2, h3⟩ |
    ⟨h1, b1, b2, b3, e, h2, h3, h4⟩
  · rw [e, ← h2]
    exact one (by omega)
  · have hb := @two b1 b2 (by omega) (by omega)
    rwa [e, show n = 193 + (b1.toNat - 193) * 256 + b2.toNat by omega]
  · have hb := @three b1 b2 b3 (by omega) (by omega)
    rwa [e, show n = 12481 + (b1.toNat - 241) * 65536 + b2.toNat * 256 + b3.toNat by omega]

/-- The encoder writes an accepted prefix if it writes one for that length at all. -/
lemma encodeVL_iff (h : Announces p n) : encodeVL n = .ok p ↔ n ≤ maxVL := by
  constructor
  · intro he
    by_contra hn
    unfold maxVL at hn
    unfold encodeVL at he
    rw [if_neg (by omega), if_neg (by omega), if_neg (by omega)] at he
    cases he
  · intro hn
    rw [encodeVL_eq hn, (vlHeader hn).unique h]

/-- The lengths above the encoder's are the top of the last range. -/
lemma maxVL_lt_iff (h : Announces p n) :
    maxVL < n ↔ ∃ b2 b3 : UInt8, p = [254, b2, b3] ∧ 54295 < b2.toNat * 256 + b3.toNat := by
  unfold maxVL
  constructor
  · intro hn
    cases h with
    | @one b1 h => omega
    | @two b1 b2 h h' =>
      have := b2.toNat_lt
      omega
    | @three b1 b2 b3 h h' =>
      have := b2.toNat_lt
      have := b3.toNat_lt
      have hb : b1 = 254 := UInt8.toNat_inj.1 (show b1.toNat = 254 by omega)
      subst hb
      exact ⟨b2, b3, rfl, by rw [show (254 : UInt8).toNat = 254 from rfl] at hn; omega⟩
  · rintro ⟨b2, b3, rfl, hb⟩
    cases h with
    | three _ _ h h' =>
      rw [show (254 : UInt8).toNat = 254 from rfl]
      omega

/-- The first byte gives the size of the prefix. -/
lemma length_eq {b : UInt8} {m : ℕ} (hp : Announces (b :: p) n) (hq : Announces (b :: q) m) :
    p.length = q.length := by
  cases hp with
  | one h =>
    cases hq with
    | one k => rfl
    | two c2 k k' => omega
    | three c2 c3 k k' => omega
  | two b2 h h' =>
    cases hq with
    | one k => omega
    | two c2 k k' => rfl
    | three c2 c3 k k' => omega
  | three b2 b3 h h' =>
    cases hq with
    | one k => omega
    | two c2 k k' => omega
    | three c2 c3 k k' => rfl

lemma ne_nil (h : Announces p n) : ∃ b p', p = b :: p' := by
  cases h with
  | one h => exact ⟨_, _, rfl⟩
  | two b2 h h' => exact ⟨_, _, rfl⟩
  | three b2 b3 h h' => exact ⟨_, _, rfl⟩

/-- The byte 255 begins no accepted prefix. -/
lemma not_reserved {buf : Bytes} {pos : ℕ} (hp : Announces p n) (wp : Window buf pos p) :
    ¬ Window buf pos [255] := by
  intro h255
  obtain ⟨b, p, rfl⟩ := hp.ne_nil
  obtain rfl : b = 255 := by
    simpa using (window_cons.1 wp).1.take_drop.symm.trans h255.take_drop
  cases hp with
  | one h => exact absurd h (by decide)
  | two b2 h h' => exact absurd h' (by decide)
  | three b2 b3 h h' => exact absurd h' (by decide)

/-- At most one accepted prefix stands at a position. -/
lemma window_unique {buf : Bytes} {pos m : ℕ} (hp : Announces p n) (hq : Announces q m)
    (wp : Window buf pos p) (wq : Window buf pos q) : p = q := by
  obtain ⟨b, p, rfl⟩ := hp.ne_nil
  obtain ⟨c, q, rfl⟩ := hq.ne_nil
  obtain rfl : b = c := by
    simpa using (window_cons.1 wp).1.take_drop.symm.trans (window_cons.1 wq).1.take_drop
  rw [← wp.take_drop, ← wq.take_drop, List.length_cons, List.length_cons, hp.length_eq hq]

end Announces

/-! ### Reading at a position -/

/-- What a `std::vector` of bytes can hold. -/
def Serializer.Fits (s : Serializer) : Prop := s.mData.length < 2 ^ 63

instance (s : Serializer) : Decidable s.Fits := by unfold Serializer.Fits; infer_instance

/-- The read comes back with `true` or `false`. -/
def Returns {α : Type} (x : Read α) : Prop := ∃ o, x.run = .ok o

section Readers

variable {s : Serializer} {offset : ℤ} {pos : ℕ} {α β : Type}

/-- The bytes `bs` stand at `offset`. -/
def Serializer.Holds (s : Serializer) (offset : ℤ) (bs : Bytes) : Prop :=
  ∃ pos : ℕ, offset = pos ∧ Window s.mData pos bs

lemma holds_natCast {bs : Bytes} : s.Holds pos bs ↔ Window s.mData pos bs := by
  constructor
  · rintro ⟨pos', he, h⟩
    rwa [Nat.cast_inj.1 he]
  · exact fun h => ⟨pos, rfl, h⟩

lemma failure_bind (f : α → Read β) : (failure : Read α) >>= f = failure := rfl

lemma throw_bind (e : Fault) (f : α → Read β) : (throwThe Fault e : Read α) >>= f = throwThe Fault e := rfl

lemma returns_pure (a : α) : Returns (pure a : Read α) := ⟨some a, rfl⟩

lemma returns_failure : Returns (failure : Read α) := ⟨none, rfl⟩

lemma not_returns_throw (e : Fault) : ¬ Returns (throwThe Fault e : Read α) := by
  rintro ⟨o, h⟩
  cases h

lemma window_take_drop {buf : Bytes} {n : ℕ} (h : pos + n ≤ buf.length) :
    Window buf pos ((buf.drop pos).take n) := by
  refine ⟨buf.take pos, (buf.drop pos).drop n, ?_, by simp; omega⟩
  rw [List.take_append_drop, List.take_append_drop]

lemma exceeds_iff (hs : s.Fits) (ho : IsInt offset) :
    s.exceeds offset ↔ offset < 0 ∨ s.mData.length < offset := by
  unfold Serializer.Fits at hs
  unfold IsInt at ho
  unfold exceeds toSizeT
  omega

lemma bytesAt_window {bs : Bytes} (h : Window s.mData pos bs) : s.bytesAt pos bs.length = pure bs := by
  have hle := h.le
  unfold bytesAt
  rw [if_pos (by omega)]
  simp only [Int.toNat_natCast]
  rw [h.take_drop]

lemma get8_at {b : UInt8} (hp : pos < 2 ^ 31) (h : Window s.mData pos [b]) :
    s.get8 pos = pure (b.toNat : ℤ) := by
  have hle := h.le
  simp only [List.length_singleton] at hle
  unfold get8
  rw [toSizeT_eq (by omega) (by omega), if_neg (by omega)]
  have hb := bytesAt_window h
  simp only [List.length_singleton, Nat.cast_one] at hb
  simp [hb, beNat]

lemma get8_cases (hs : s.Fits) (ho : IsInt offset) :
    (∃ b : UInt8, s.Holds offset [b] ∧ s.get8 offset = pure (b.toNat : ℤ)) ∨
    ((∀ b, ¬ s.Holds offset [b]) ∧ s.get8 offset = failure) := by
  unfold Serializer.Fits at hs
  unfold IsInt at ho
  by_cases h : 0 ≤ offset ∧ offset < s.mData.length
  · left
    obtain ⟨pos, rfl⟩ := Int.eq_ofNat_of_zero_le h.1
    have hw := @window_take_drop pos s.mData 1 (by omega)
    obtain ⟨b, hb⟩ : ∃ b, (s.mData.drop pos).take 1 = [b] := by
      apply List.length_eq_one_iff.1
      simp
      omega
    rw [hb] at hw
    exact ⟨b, holds_natCast.2 hw, get8_at (by omega) hw⟩
  · right
    constructor
    · rintro b ⟨pos, rfl, hw⟩
      have := hw.le
      simp only [List.length_singleton] at this
      omega
    · have hge : toSizeT offset ≥ s.mData.length := by
        unfold toSizeT
        omega
      unfold get8
      rw [if_pos hge]
      rfl

lemma getRaw_at {bs : Bytes} (h : Window s.mData pos bs) (hp : pos + bs.length < 2 ^ 31) :
    s.getRaw pos bs.length = pure bs := by
  have hle := h.le
  have hex : ¬ s.exceeds (toInt ((pos : ℤ) + bs.length)) := by
    unfold exceeds
    rw [toInt_eq (by omega) (by omega), toSizeT_eq (by omega) (by omega)]
    omega
  unfold getRaw
  rw [if_neg hex]
  exact bytesAt_window h

lemma getRaw_cases (hs : s.Fits) {n : ℕ} (hp : pos ≤ 2 ^ 31) (hn : n < 2 ^ 31) :
    (∃ v, v.length = n ∧ Window s.mData pos v ∧ pos + n < 2 ^ 31 ∧
      s.getRaw (toInt pos) n = pure v) ∨
    (¬ (pos + n ≤ s.mData.length ∧ pos + n < 2 ^ 31) ∧ s.getRaw (toInt pos) n = failure) := by
  by_cases h : pos + n ≤ s.mData.length ∧ pos + n < 2 ^ 31
  · left
    have hw := window_take_drop h.1
    have hlen : ((s.mData.drop pos).take n).length = n := by
      simp
      omega
    have hr := getRaw_at hw (by omega)
    rw [hlen] at hr
    rw [toInt_eq (by omega) (by omega)]
    exact ⟨_, hlen, hw, h.2, hr⟩
  · right
    have hex : s.exceeds (toInt (toInt pos + n)) := by
      rw [exceeds_iff hs (isInt_toInt _), toInt_toInt_add]
      by_cases hlt : pos + n < 2 ^ 31
      · rw [toInt_eq (by omega) (by omega)]
        omega
      · rw [toInt_wrap (by omega) (by omega)]
        omega
    refine ⟨h, ?_⟩
    unfold getRaw
    rw [if_pos hex]
    rfl

lemma caught_pure {α : Type} (a : α) : caught (pure a) = (pure a : Read α) := rfl

lemma lift_ok {α : Type} (a : α) : (liftM (Except.ok a : Except Fault α) : Read α) = pure a := rfl

lemma succ_natCast {n : ℕ} (h : n + 1 < 2 ^ 31) : toInt ((n : ℤ) + 1) = ((n + 1 : ℕ) : ℤ) := by
  rw [toInt_eq (by omega) (by omega)]
  push_cast
  rfl

lemma decodeLengthLength_one {b1 : ℕ} (h : b1 ≤ 192) : decodeLengthLength b1 = .ok 1 := by
  unfold decodeLengthLength
  rw [if_neg (by omega), if_pos (by omega)]

lemma decodeLengthLength_two {b1 : ℕ} (h : 193 ≤ b1) (h' : b1 ≤ 240) : decodeLengthLength b1 = .ok 2 := by
  unfold decodeLengthLength
  rw [if_neg (by omega), if_neg (by omega), if_pos (by omega)]

lemma decodeLengthLength_three {b1 : ℕ} (h : 241 ≤ b1) (h' : b1 ≤ 254) : decodeLengthLength b1 = .ok 3 := by
  unfold decodeLengthLength
  rw [if_neg (by omega), if_neg (by omega), if_neg (by omega), if_pos (by omega)]

/-- **An accepted prefix is read as the length it announces.** -/
theorem vlPrefix_at {p : Bytes} {n : ℕ} (ha : Announces p n) (h : Window s.mData pos p)
    (hp : pos + p.length ≤ 2 ^ 31) :
    s.vlPrefix pos = pure ((p.length : ℤ), (n : ℤ), toInt ((pos + p.length : ℕ) : ℤ)) := by
  unfold vlPrefix
  cases ha with
  | @one b1 h1 =>
    simp only [List.length_singleton] at hp ⊢
    rw [get8_at (by omega) h, pure_bind]
    have hv : decodeVLLength₁ b1.toNat = .ok b1.toNat := by
      unfold decodeVLLength₁
      rw [if_neg (by omega), if_neg (by omega)]
    rw [decodeLengthLength_one h1, lift_ok, pure_bind, if_pos rfl, hv, lift_ok, pure_bind, caught_pure]
    rfl
  | @two b1 b2 h1 h2 =>
    simp only [List.length_cons, List.length_nil] at hp ⊢
    obtain ⟨w1, w2⟩ := window_cons.1 h
    rw [get8_at (by omega) w1, pure_bind, succ_natCast (by omega)]
    have hv : decodeVLLength₂ b1.toNat b2.toNat = .ok ((193 + (b1.toNat - 193) * 256 + b2.toNat : ℕ) : ℤ) := by
      unfold decodeVLLength₂
      rw [if_neg (by omega), if_neg (by omega)]
      congr 1
      omega
    rw [decodeLengthLength_two h1 h2, lift_ok, pure_bind, if_neg (by omega), if_pos rfl, get8_at (by omega) w2,
      pure_bind, hv, lift_ok, pure_bind, caught_pure]
    rfl
  | @three b1 b2 b3 h1 h2 =>
    simp only [List.length_cons, List.length_nil] at hp ⊢
    obtain ⟨w1, w23⟩ := window_cons.1 h
    obtain ⟨w2, w3⟩ := window_cons.1 w23
    rw [get8_at (by omega) w1, pure_bind, succ_natCast (by omega)]
    have hv : decodeVLLength₃ b1.toNat b2.toNat b3.toNat
        = .ok ((12481 + (b1.toNat - 241) * 65536 + b2.toNat * 256 + b3.toNat : ℕ) : ℤ) := by
      unfold decodeVLLength₃
      rw [if_neg (by omega), if_neg (by omega)]
      congr 1
      omega
    rw [decodeLengthLength_three h1 h2, lift_ok, pure_bind, if_neg (by omega), if_neg (by omega), if_pos rfl,
      get8_at (by omega) w2, pure_bind, succ_natCast (by omega), get8_at (by omega) w3, pure_bind, hv, lift_ok,
      pure_bind, caught_pure]
    rfl

/-- **An accepted prefix with its payload behind it is read.** -/
theorem getVL_at {p v : Bytes} (ha : Announces p v.length) (h : Window s.mData pos (p ++ v))
    (hp : pos + (p ++ v).length < 2 ^ 31) :
    s.getVL pos = pure (v, (((p ++ v).length : ℕ) : ℤ)) := by
  obtain ⟨w1, w2⟩ := window_append.1 h
  rw [List.length_append] at hp ⊢
  have hlen : toInt ((p.length : ℤ) + v.length) = ((p.length + v.length : ℕ) : ℤ) := by
    rw [toInt_eq (by omega) (by omega)]
    push_cast
    rfl
  unfold getVL
  rw [vlPrefix_at ha w1 (by omega), pure_bind, toInt_eq (by omega) (by omega)]
  simp only [getRaw_at w2 (by omega), pure_bind, hlen]

lemma caught_failure : caught (failure : Read α) = failure := rfl

/-- The first byte of a prefix tells its range. -/
lemma announces_byte (b1 : UInt8) : b1.toNat ≤ 192 ∨ (193 ≤ b1.toNat ∧ b1.toNat ≤ 240) ∨
    (241 ≤ b1.toNat ∧ b1.toNat ≤ 254) ∨ b1 = 255 := by
  have := b1.toNat_lt
  by_cases h : b1.toNat = 255
  · exact .inr (.inr (.inr (UInt8.toNat_inj.1 h)))
  · omega

/-- A window is one byte and the rest. -/
lemma holds_cons {b : UInt8} {bs : Bytes} (hp : pos < 2 ^ 31) (h : Window s.mData pos [b])
    (h' : s.Holds (toInt (pos + 1)) bs) : Window s.mData pos (b :: bs) ∧ pos + 1 < 2 ^ 31 := by
  obtain ⟨pos', he, hw⟩ := h'
  have hlt : pos + 1 < 2 ^ 31 := by
    by_contra hge
    rw [toInt_wrap (by omega) (by omega)] at he
    omega
  rw [toInt_eq (by omega) (by omega)] at he
  obtain rfl : pos' = pos + 1 := by omega
  exact ⟨window_cons.2 ⟨h, hw⟩, hlt⟩

lemma holds_singleton_unique {b c : UInt8} (h : Window s.mData pos [b]) (h' : Window s.mData pos [c]) : b = c := by
  have := h.take_drop.symm.trans h'.take_drop
  simpa using this

/-- A prefix of two or three bytes is cut behind the first. -/
lemma vlPrefix_cut {b1 : ℕ} (e1 : s.get8 offset = pure (b1 : ℤ)) (h : 193 ≤ b1) (h' : b1 ≤ 254)
    (e2 : s.get8 (toInt (offset + 1)) = failure) : s.vlPrefix offset = failure := by
  unfold vlPrefix
  by_cases h240 : b1 ≤ 240
  · rw [e1, pure_bind, decodeLengthLength_two h h240, lift_ok, pure_bind, if_neg (by omega), if_pos rfl, e2,
      failure_bind, caught_failure]
  · rw [e1, pure_bind, decodeLengthLength_three (by omega) h', lift_ok, pure_bind, if_neg (by omega),
      if_neg (by omega), if_pos rfl, e2, failure_bind, caught_failure]

/-- A prefix of three bytes is cut behind the second. -/
lemma vlPrefix_cut_third {b1 : ℕ} {b2 : ℤ} (e1 : s.get8 offset = pure (b1 : ℤ)) (h : 241 ≤ b1) (h' : b1 ≤ 254)
    (e2 : s.get8 (toInt (offset + 1)) = pure b2) (e3 : s.get8 (toInt (toInt (offset + 1) + 1)) = failure) :
    s.vlPrefix offset = failure := by
  unfold vlPrefix
  rw [e1, pure_bind, decodeLengthLength_three h h', lift_ok, pure_bind, if_neg (by omega), if_neg (by omega),
    if_pos rfl, e2, pure_bind, e3, failure_bind, caught_failure]

/-- **What stands at an offset decides what reading a prefix there does**: an accepted prefix is read,
the reserved byte is thrown at, and all else fails. -/
theorem vlPrefix_cases (hs : s.Fits) (ho : IsInt offset) :
    (∃ (pos : ℕ) (p : Bytes) (n : ℕ), offset = pos ∧ Announces p n ∧ Window s.mData pos p ∧
      pos + p.length ≤ 2 ^ 31 ∧
      s.vlPrefix offset = pure ((p.length : ℤ), (n : ℤ), toInt ((pos + p.length : ℕ) : ℤ))) ∨
    (s.Holds offset [255] ∧ s.vlPrefix offset = throwThe Fault (.overflowError "b1>254")) ∨
    (¬ s.Holds offset [255] ∧ s.vlPrefix offset = failure) := by
  have read {pos : ℕ} {p : Bytes} {n : ℕ} (ha : Announces p n) (hw : Window s.mData pos p)
      (hp : pos + p.length ≤ 2 ^ 31) : ∃ (pos' : ℕ) (p : Bytes) (n : ℕ), (pos : ℤ) = pos' ∧
        Announces p n ∧ Window s.mData pos' p ∧ pos' + p.length ≤ 2 ^ 31 ∧
        s.vlPrefix pos = pure ((p.length : ℤ), (n : ℤ), toInt ((pos' + p.length : ℕ) : ℤ)) :=
    ⟨pos, p, n, rfl, ha, hw, hp, vlPrefix_at ha hw hp⟩
  rcases get8_cases hs ho with ⟨b1, ⟨pos, rfl, w1⟩, e1⟩ | ⟨hno, e1⟩
  · obtain ⟨-, hp⟩ := ho
    have other (h254 : b1.toNat ≤ 254) : ¬ s.Holds pos [255] := by
      intro h
      rw [holds_singleton_unique w1 (holds_natCast.1 h)] at h254
      exact absurd h254 (by decide)
    rcases announces_byte b1 with h | ⟨h, h'⟩ | ⟨h, h'⟩ | rfl
    · exact .inl (read (.one h) w1 (by simp; omega))
    · rcases get8_cases hs (isInt_toInt (pos + 1)) with ⟨b2, hb2, -⟩ | ⟨-, e2⟩
      · obtain ⟨w2, hlt⟩ := holds_cons (by omega) w1 hb2
        exact .inl (read (.two b2 h h') w2 (by simp; omega))
      · exact .inr (.inr ⟨other (by omega), vlPrefix_cut e1 h (by omega) e2⟩)
    · rcases get8_cases hs (isInt_toInt (pos + 1)) with ⟨b2, hb2, e2⟩ | ⟨-, e2⟩
      · obtain ⟨w2, hlt⟩ := holds_cons (by omega) w1 hb2
        have hpos := succ_natCast hlt
        rcases get8_cases hs (isInt_toInt ((pos + 1 : ℕ) + 1)) with ⟨b3, hb3, -⟩ | ⟨-, e3⟩
        · obtain ⟨w3, hlt'⟩ := holds_cons (by omega) (window_cons.1 w2).2 hb3
          exact .inl (read (.three b2 b3 h h') (window_cons.2 ⟨w1, w3⟩) (by simp; omega))
        · exact .inr (.inr ⟨other h', vlPrefix_cut_third e1 h h' e2 (by rwa [hpos])⟩)
      · exact .inr (.inr ⟨other h', vlPrefix_cut e1 (by omega) h' e2⟩)
    · refine .inr (.inl ⟨holds_natCast.2 w1, ?_⟩)
      unfold vlPrefix
      rw [e1, pure_bind]
      rfl
  · refine .inr (.inr ⟨hno 255, ?_⟩)
    unfold vlPrefix
    rw [e1, failure_bind]

/-- **Reading a payload**: the same three outcomes, and the last one also where the payload is cut. -/
theorem getVL_cases (hs : s.Fits) (ho : IsInt offset) :
    (∃ (pos : ℕ) (p v : Bytes), offset = pos ∧ Announces p v.length ∧ Window s.mData pos (p ++ v) ∧
      pos + (p ++ v).length < 2 ^ 31 ∧ s.getVL offset = pure (v, (((p ++ v).length : ℕ) : ℤ))) ∨
    (s.Holds offset [255] ∧ s.getVL offset = throwThe Fault (.overflowError "b1>254")) ∨
    (¬ s.Holds offset [255] ∧ s.getVL offset = failure) := by
  rcases vlPrefix_cases hs ho with ⟨pos, p, n, rfl, ha, hw, hp, e⟩ | ⟨h, e⟩ | ⟨h, e⟩
  · have hn := ha.length_le.2
    rcases getRaw_cases hs hp (show n < 2 ^ 31 by omega) with ⟨v, rfl, hv, hlt, e'⟩ | ⟨-, e'⟩
    · have hw' := window_append.2 ⟨hw, hv⟩
      have hlt' : pos + (p ++ v).length < 2 ^ 31 := by
        rw [List.length_append]
        omega
      exact .inl ⟨pos, p, v, rfl, ha, hw', hlt', getVL_at ha hw' hlt'⟩
    · refine .inr (.inr ⟨fun h => ha.not_reserved hw (holds_natCast.1 h), ?_⟩)
      unfold getVL
      rw [e, pure_bind]
      simp only [e', failure_bind]
  · refine .inr (.inl ⟨h, ?_⟩)
    unfold getVL
    rw [e, throw_bind]
  · refine .inr (.inr ⟨h, ?_⟩)
    unfold getVL
    rw [e, failure_bind]

end Readers

end Newcoin
