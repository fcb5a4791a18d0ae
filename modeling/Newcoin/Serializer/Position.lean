import Newcoin.Serializer.RoundTrip
import Newcoin.Serializer.Malformed

/-!
# Where the iterator stands

Every getter but `getRaw` moves on only after it has read, and never past the end
(`Kind.read_movesWithin`); `getRaw` moves on first.  So a run of reads keeps the position within the
buffer, and in its place where a read fails, exactly if `getRaw` is never asked for more than is left.
-/

namespace Newcoin

open Lib Serializer

/-- A call of one of the getters. -/
inductive ReadCall
  | field (k : Kind)
  | getRaw (iLength : ℤ)

namespace ReadCall

/-- The iterator after the call, also after one that throws. -/
def after : ReadCall → SerializerIterator → SerializerIterator
  | field k, it => (k.read.run it).2
  | getRaw n, it => ((SerializerIterator.getRaw n).run it).2

/-- The call throws, or comes back empty because too few bytes are left. -/
def Fails : ReadCall → SerializerIterator → Prop
  | field k, it => ∃ e, (k.read.run it).1 = .error e
  | getRaw n, it => it.mSerializer.mData.length < it.mPos + n

/-- `getRaw` takes an `int` that is not negative. -/
def Valid : ReadCall → Prop
  | field _ => True
  | getRaw n => 0 ≤ n ∧ n < 2 ^ 31

instance : DecidablePred Valid
  | field _ => isTrue trivial
  | getRaw n => inferInstanceAs (Decidable (0 ≤ n ∧ n < 2 ^ 31))

/-- `getRaw` is asked for no more than is left. -/
def Covered (it : SerializerIterator) : ReadCall → Prop
  | field _ => True
  | getRaw n => it.mPos + n ≤ it.mSerializer.mData.length

/-- The position is within the buffer after the call, and where it was if the call fails. -/
def KeepsPosition (it : SerializerIterator) (c : ReadCall) : Prop :=
  0 ≤ (c.after it).mPos ∧ (c.after it).mPos ≤ it.mSerializer.mData.length ∧ 0 ≤ (c.after it).getBytesLeft ∧
    (c.Fails it → (c.after it).mPos = it.mPos)

/-- `P` of every call of a run and the iterator it finds. -/
def Along (P : SerializerIterator → ReadCall → Prop) : List ReadCall → SerializerIterator → Prop
  | [], _ => True
  | c :: cs, it => P it c ∧ Along P cs (c.after it)

end ReadCall

/-! ### One read -/

/-- A read fails on the spot or moves on within the buffer. -/
def MovesWithin {α : Type} (x : Iter α) (it : SerializerIterator) : Prop :=
  (∃ e, x.run it = (.error e, it)) ∨
    ∃ (a : α) (m : ℕ), x.run it = (.ok a, ⟨it.mSerializer, m⟩) ∧ m ≤ it.mSerializer.mData.length

variable {s : Serializer} {pos : ℕ} {α β : Type}

lemma MovesWithin.map {x : Iter α} {it : SerializerIterator} (f : α → β) (h : MovesWithin x it) :
    MovesWithin (f <$> x) it := by
  rcases h with ⟨e, h⟩ | ⟨a, m, h, hm⟩
  · refine .inl ⟨e, ?_⟩
    show (f <$> x) it = _
    have h' : x it = (.error e, it) := h
    simp only [Functor.map, ExceptT.map, ExceptT.mk, bind, StateT.bind, h']
    rfl
  · exact .inr ⟨f a, m, iter_map h, hm⟩

/-- A getter moves within the buffer if what it reads lies in it. -/
lemma next_movesWithin {what : String} {read : Serializer → ℤ → Read α} {width : α → ℤ} (hs : s.Short)
    (h : ∀ val, (read s pos).run = .ok (some val) → ∃ n : ℕ, width val = n ∧ pos + n ≤ s.mData.length) :
    MovesWithin (SerializerIterator.next what read width) ⟨s, pos⟩ := by
  have hrun : (SerializerIterator.next what read width).run ⟨s, pos⟩ =
      SerializerIterator.next what read width ⟨s, pos⟩ := rfl
  unfold MovesWithin
  rw [hrun, SerializerIterator.next]
  rcases hr : (read s pos).run with e | _ | val
  · exact .inl ⟨e, rfl⟩
  · exact .inl ⟨_, rfl⟩
  · obtain ⟨n, hw, hle⟩ := h val hr
    refine .inr ⟨val, pos + n, ?_, hle⟩
    show (_, (⟨s, toInt (pos + width val)⟩ : SerializerIterator)) = _
    rw [hw, toInt_add hs hle]

lemma Serializer.Short.fits (hs : s.Short) : s.Fits := by
  unfold Serializer.Short at hs
  unfold Serializer.Fits
  omega

lemma isInt_pos (hs : s.Short) (hp : pos ≤ s.mData.length) : IsInt pos := by
  unfold Serializer.Short at hs
  exact ⟨by omega, by omega⟩

lemma read_run_pure {a b : α} {x : Read α} (hx : x = pure a) (h : x.run = .ok (some b)) : a = b := by
  rw [hx] at h
  exact Option.some.inj (Except.ok.inj h)

lemma read_run_failure {b : α} {x : Read α} (hx : x = failure) (h : x.run = .ok (some b)) : False := by
  rw [hx] at h
  cases h

lemma get8_within (hs : s.Short) (hp : pos ≤ s.mData.length) {b : ℤ}
    (h : (s.get8 pos).run = .ok (some b)) : pos + 1 ≤ s.mData.length := by
  rcases get8_cases hs.fits (isInt_pos hs hp) with ⟨b', hb, -⟩ | ⟨-, e⟩
  · exact (holds_natCast.1 hb).le
  · exact (read_run_failure e h).elim

lemma getFixed_within {width : ℕ} (hs : s.Short) (hp : pos ≤ s.mData.length) (hw : width < 2 ^ 31) {bs : Bytes}
    (h : (s.getFixed width pos).run = .ok (some bs)) : pos + width ≤ s.mData.length := by
  have hraw : s.getFixed width pos = s.getRaw (toInt pos) width := by
    rw [toInt_pos hs hp]
    rfl
  rw [hraw] at h
  rcases getRaw_cases hs.fits (hp.trans hs.le) hw with ⟨v, rfl, hv, -⟩ | ⟨-, e⟩
  · exact hv.le
  · exact (read_run_failure e h).elim

lemma getVL_within (hs : s.Short) (hp : pos ≤ s.mData.length) {x : Bytes × ℤ}
    (h : (s.getVL pos).run = .ok (some x)) : ∃ n : ℕ, x.2 = n ∧ pos + n ≤ s.mData.length := by
  rcases getVL_cases hs.fits (isInt_pos hs hp) with ⟨pos', p, v, he, -, hw, -, e⟩ | ⟨-, e⟩ | ⟨-, e⟩
  · obtain rfl := Nat.cast_inj.1 he
    rw [← read_run_pure e h]
    exact ⟨_, rfl, hw.le⟩
  · rw [e] at h
    cases h
  · exact (read_run_failure e h).elim

lemma run_map_some {f : α → β} {x : Read α} {b : β} (h : (f <$> x).run = .ok (some b)) :
    ∃ a, x.run = .ok (some a) ∧ f a = b := by
  rw [OptionT.run_map] at h
  rcases hr : x.run with e | _ | a
  · rw [hr] at h
    cases h
  · rw [hr] at h
    cases h
  · rw [hr] at h
    exact ⟨a, rfl, Option.some.inj (Except.ok.inj h)⟩

/-- The loop ends within the buffer, by induction on the items to read. -/
lemma getTaggedItems_within (hs : s.Short) (n : ℕ) (hp : pos ≤ s.mData.length) {x : List TaggedListItem × ℤ}
    (h : (s.getTaggedItems n pos).run = .ok (some x)) :
    ∃ m : ℕ, x.2 = m ∧ pos ≤ m ∧ m ≤ s.mData.length := by
  induction n generalizing pos x with
  | zero =>
    obtain rfl := Option.some.inj (Except.ok.inj h)
    exact ⟨pos, rfl, le_rfl, hp⟩
  | succ n ih =>
    rcases get8_cases hs.fits (isInt_pos hs hp) with ⟨b, hb, e1⟩ | ⟨-, e1⟩
    · have hle := (holds_natCast.1 hb).le
      simp only [List.length_singleton] at hle
      have hpos : toInt ((pos : ℤ) + 1) = ((pos + 1 : ℕ) : ℤ) := toInt_succ hs hle
      rcases getVL_cases hs.fits (isInt_pos hs hle) with ⟨pos', p, v, he, -, hw, -, e2⟩ | ⟨-, e2⟩ | ⟨-, e2⟩
      · obtain rfl := Nat.cast_inj.1 he
        rw [getTaggedItems_succ e1 (by rw [hpos]; exact e2), hpos, toInt_add hs hw.le] at h
        obtain ⟨y, hy, rfl⟩ := run_map_some h
        obtain ⟨m, hm, hge, hle'⟩ := ih hw.le hy
        exact ⟨m, hm, by omega, hle'⟩
      · rw [getTaggedItems, e1, pure_bind] at h
        simp only [hpos, e2, throw_bind] at h
        cases h
      · rw [getTaggedItems, e1, pure_bind] at h
        simp only [hpos, e2, failure_bind] at h
        cases h
    · rw [getTaggedItems, e1, failure_bind] at h
      cases h

lemma getTaggedList_within (hs : s.Short) (hp : pos ≤ s.mData.length) {x : List TaggedListItem × ℤ}
    (h : (s.getTaggedList pos).run = .ok (some x)) : ∃ n : ℕ, x.2 = n ∧ pos + n ≤ s.mData.length := by
  rcases get8_cases hs.fits (isInt_pos hs hp) with ⟨b, hb, e⟩ | ⟨-, e⟩
  · have hle := (holds_natCast.1 hb).le
    simp only [List.length_singleton] at hle
    rw [getTaggedList_of_count e, toInt_succ hs hle] at h
    obtain ⟨y, hy, rfl⟩ := run_map_some h
    obtain ⟨m, hm, hge, hle'⟩ := getTaggedItems_within hs _ hle hy
    have hsub : y.2 - (pos : ℤ) = ((m - pos : ℕ) : ℤ) := by omega
    refine ⟨m - pos, ?_, by omega⟩
    simp only [hsub]
    exact toInt_pos hs (by omega)
  · unfold getTaggedList at h
    rw [e, failure_bind] at h
    cases h

/-- The getters of a fixed width. -/
lemma next_fixed_movesWithin {what : String} {f : Bytes → α} {width : ℕ} {w : ℤ} (hs : s.Short)
    (hp : pos ≤ s.mData.length) (hw : width < 2 ^ 31) (h : w = width) :
    MovesWithin (SerializerIterator.next what (fun s offset => f <$> s.getFixed w offset) fun _ => w) ⟨s, pos⟩ := by
  subst h
  refine next_movesWithin hs fun val hval => ?_
  obtain ⟨bs, hbs, -⟩ := run_map_some hval
  exact ⟨width, rfl, getFixed_within hs hp hw hbs⟩

/-- **The getters of values fail on the spot or move on within the buffer.** -/
lemma Kind.read_movesWithin (k : Kind) (hs : s.Short) (hp : pos ≤ s.mData.length) :
    MovesWithin k.read ⟨s, pos⟩ := by
  cases k with
  | u8 => exact ((next_movesWithin hs fun val h => ⟨1, rfl, get8_within hs hp h⟩).map _).map _
  | u16 => exact (next_fixed_movesWithin hs hp (show 2 < 2 ^ 31 by norm_num) rfl).map _
  | u32 => exact (next_fixed_movesWithin hs hp (show 4 < 2 ^ 31 by norm_num) rfl).map _
  | u64 => exact (next_fixed_movesWithin hs hp (show 8 < 2 ^ 31 by norm_num) rfl).map _
  | u128 => exact (next_fixed_movesWithin hs hp (show 16 < 2 ^ 31 by norm_num) rfl).map _
  | u160 => exact (next_fixed_movesWithin hs hp (show 20 < 2 ^ 31 by norm_num) rfl).map _
  | u256 => exact (next_fixed_movesWithin hs hp (show 32 < 2 ^ 31 by norm_num) rfl).map _
  | vl => exact ((next_movesWithin hs fun val h => getVL_within hs hp h).map _).map _
  | taggedList => exact ((next_movesWithin hs fun val h => getTaggedList_within hs hp h).map _).map _

/-! ### Runs -/

namespace ReadCall

lemma getRaw_after (s : Serializer) (pos n : ℤ) : (getRaw n).after ⟨s, pos⟩ = ⟨s, toInt (pos + n)⟩ := rfl

/-- A position within the buffer leaves a number of bytes that is not negative. -/
lemma getBytesLeft_nonneg (hs : s.Short) (hp : pos ≤ s.mData.length) :
    0 ≤ SerializerIterator.getBytesLeft ⟨s, pos⟩ := by
  unfold Serializer.Short at hs
  unfold SerializerIterator.getBytesLeft
  rw [toInt_eq (by simp only; omega) (by simp only; omega)]
  simp only
  omega

/-- A call that asks for no more than is left ends within the buffer. -/
lemma after_eq (hs : s.Short) (hp : pos ≤ s.mData.length) {c : ReadCall} (hv : c.Valid)
    (hc : c.Covered ⟨s, pos⟩) : ∃ m : ℕ, c.after ⟨s, pos⟩ = ⟨s, m⟩ ∧ m ≤ s.mData.length := by
  cases c with
  | field k =>
    rcases k.read_movesWithin hs hp with ⟨e, h⟩ | ⟨a, m, h, hm⟩
    · exact ⟨pos, congrArg Prod.snd h, hp⟩
    · exact ⟨m, congrArg Prod.snd h, hm⟩
  | getRaw n =>
    obtain ⟨n, rfl⟩ := Int.eq_ofNat_of_zero_le hv.1
    have hle : pos + n ≤ s.mData.length := by
      simp only [Covered] at hc
      omega
    refine ⟨pos + n, ?_, hle⟩
    rw [getRaw_after]
    exact congrArg _ (toInt_add hs hle)

/-- **One call keeps the position exactly if it is not `getRaw` asking for more than is left.** -/
lemma keepsPosition_iff (hs : s.Short) (hp : pos ≤ s.mData.length) {c : ReadCall} (hv : c.Valid) :
    KeepsPosition ⟨s, pos⟩ c ↔ c.Covered ⟨s, pos⟩ := by
  constructor
  · rintro ⟨-, -, -, hfail⟩
    cases c with
    | field k => trivial
    | getRaw n =>
      by_contra hc
      obtain ⟨h0, h31⟩ := hv
      simp only [Covered, not_le] at hc
      have hpos := hfail hc
      simp only [getRaw_after] at hpos
      unfold Serializer.Short at hs
      by_cases hlt : (pos : ℤ) + n < 2 ^ 31
      · rw [toInt_eq (by omega) hlt] at hpos
        omega
      · rw [toInt_wrap (by omega) (by omega)] at hpos
        omega
  · intro hc
    obtain ⟨m, hafter, hm⟩ := after_eq hs hp hv hc
    unfold KeepsPosition
    rw [hafter]
    refine ⟨by simp, by simpa using hm, getBytesLeft_nonneg hs hm, fun hfail => ?_⟩
    cases c with
    | field k =>
      obtain ⟨e', he'⟩ := hfail
      rcases k.read_movesWithin hs hp with ⟨e, h⟩ | ⟨a, m', h, -⟩
      · have hsame : (⟨s, pos⟩ : SerializerIterator) = ⟨s, m⟩ := (congrArg Prod.snd h).symm.trans hafter
        rw [← hsame]
      · rw [h] at he'
        cases he'
    | getRaw n =>
      simp only [Covered, Fails] at hc hfail
      omega

lemma along_iff (hs : s.Short) (calls : List ReadCall) (hv : ∀ c ∈ calls, c.Valid) (hp : pos ≤ s.mData.length) :
    Along KeepsPosition calls ⟨s, pos⟩ ↔ Along Covered calls ⟨s, pos⟩ := by
  induction calls generalizing pos with
  | nil => exact Iff.rfl
  | cons c cs ih =>
    obtain ⟨hc, hcs⟩ := List.forall_mem_cons.1 hv
    unfold Along
    rw [keepsPosition_iff hs hp hc]
    refine and_congr_right fun hcov => ?_
    obtain ⟨m, hafter, hm⟩ := after_eq hs hp hc hcov
    rw [hafter]
    exact ih hcs hm

end ReadCall

/-- **In a run of reads from the start, every call keeps the position exactly if `getRaw` is never
asked for more than is left.** -/
theorem reads_keep_position (s : Serializer) (hs : s.Short) (calls : List ReadCall)
    (hv : ∀ c ∈ calls, c.Valid) :
    ReadCall.Along ReadCall.KeepsPosition calls (.new s) ↔ ReadCall.Along ReadCall.Covered calls (.new s) :=
  ReadCall.along_iff hs calls hv (Nat.zero_le _)

/-- A read that fails between two that do not. -/
theorem reads_keep_position_short_buffer :
    let calls : List ReadCall := [.getRaw 2, .field .u32, .field .u8]
    ReadCall.Along ReadCall.KeepsPosition calls (.new ⟨[1, 2, 3]⟩) ↔
      ReadCall.Along ReadCall.Covered calls (.new ⟨[1, 2, 3]⟩) :=
  reads_keep_position ⟨[1, 2, 3]⟩ (by unfold Serializer.Short; decide) _ (by decide)

/-- Two bytes asked of one: the result is empty, and the position is behind the end. -/
theorem getRaw_past_end : ¬ ReadCall.KeepsPosition (.new ⟨[7]⟩) (.getRaw 2) := by
  rintro ⟨-, h, -⟩
  exact absurd h (by decide +kernel)

end Newcoin
