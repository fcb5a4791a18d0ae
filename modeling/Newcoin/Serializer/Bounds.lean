import Newcoin.Serializer.Position

/-!
# Reads and the end of the buffer

`get8` looks at its offset, as a `size_t`.  The wider readers and `getRaw` look at where they end, and
not at where they begin: a negative offset or length whose sum lies in the buffer gets past the check
(`stays_inside_iff`).
-/

namespace Newcoin

open Serializer

variable {s : Serializer} {offset length : ℤ} {α : Type}

/-- `length` bytes at `offset` lie in the buffer. -/
def Serializer.Inside (s : Serializer) (offset length : ℤ) : Prop :=
  0 ≤ offset ∧ 0 ≤ length ∧ offset + length ≤ s.mData.length

instance (s : Serializer) (offset length : ℤ) : Decidable (s.Inside offset length) := by
  unfold Serializer.Inside
  infer_instance

/-- A call of one of the readers that look at a given number of bytes. -/
inductive SizedRead
  | get8 | get16 | get32 | get64 | get128 | get160 | get256
  | getRaw (length : ℤ)
  deriving DecidableEq

namespace SizedRead

/-- The number of bytes that the call reads. -/
def width : SizedRead → ℤ
  | get8 => 1
  | get16 => 2
  | get32 => 4
  | get64 => 8
  | get128 => 128 / 8
  | get160 => 160 / 8
  | get256 => 256 / 8
  | getRaw length => length

/-- The call at an offset, without the value. -/
def run (r : SizedRead) (s : Serializer) (offset : ℤ) : Read Unit :=
  match r with
  | get8 => (fun _ => ()) <$> s.get8 offset
  | get16 => (fun _ => ()) <$> s.get16 offset
  | get32 => (fun _ => ()) <$> s.get32 offset
  | get64 => (fun _ => ()) <$> s.get64 offset
  | get128 => (fun _ => ()) <$> s.get128 offset
  | get160 => (fun _ => ()) <$> s.get160 offset
  | get256 => (fun _ => ()) <$> s.get256 offset
  | getRaw length => (fun _ => ()) <$> s.getRaw offset length

/-- The call reports failure, or it reads inside the buffer and reports success. -/
def StaysInside (r : SizedRead) (s : Serializer) (offset : ℤ) : Prop :=
  (r.run s offset).run = .ok none ∨ (s.Inside offset r.width ∧ (r.run s offset).run = .ok (some ()))

/-- The offset or the length is negative and their sum, as an `int`, lies in the buffer. -/
def EndsInside (r : SizedRead) (s : Serializer) (offset : ℤ) : Prop :=
  (offset < 0 ∨ r.width < 0) ∧ 0 ≤ toInt (offset + r.width) ∧ toInt (offset + r.width) ≤ s.mData.length

end SizedRead

/-! ### One reader -/

lemma bytesAt_inside (h : s.Inside offset length) : ∃ bs, s.bytesAt offset length = pure bs := by
  unfold Serializer.Inside at h
  unfold bytesAt
  rw [if_pos h]
  exact ⟨_, rfl⟩

lemma bytesAt_outside (h : ¬ s.Inside offset length) :
    s.bytesAt offset length = throwThe Fault .outOfBounds := by
  unfold Serializer.Inside at h
  unfold bytesAt
  rw [if_neg h]

/-- What ends inside the buffer without a negative offset or length lies in it. -/
lemma exceeds_or_inside (hs : s.Fits) (ho : IsInt offset) (hl : IsInt length) (h0 : 0 ≤ offset) (h1 : 0 ≤ length) :
    s.exceeds (toInt (offset + length)) ∨ s.Inside offset length := by
  unfold IsInt at ho hl
  rw [exceeds_iff hs (isInt_toInt _)]
  by_cases hlt : offset + length < 2 ^ 31
  · rw [toInt_eq (by omega) hlt]
    by_cases hle : offset + length ≤ s.mData.length
    · exact .inr ⟨h0, h1, hle⟩
    · exact .inl (.inr (by omega))
  · rw [toInt_wrap (by omega) (by omega)]
    exact .inl (.inl (by omega))

/-- **The check on the end alone**: what it lets through is read, unless offset or length is negative. -/
lemma getRaw_inside (hs : s.Fits) (ho : IsInt offset) (hl : IsInt length) :
    ((s.getRaw offset length).run = .ok none ∨
      (s.Inside offset length ∧ ∃ bs, (s.getRaw offset length).run = .ok (some bs))) ↔
    ¬ ((offset < 0 ∨ length < 0) ∧ 0 ≤ toInt (offset + length) ∧ toInt (offset + length) ≤ s.mData.length) := by
  have hexceeds := exceeds_iff hs (isInt_toInt (offset + length))
  unfold getRaw
  by_cases he : s.exceeds (toInt (offset + length))
  · rw [if_pos he]
    exact iff_of_true (.inl rfl) (by rw [hexceeds] at he; omega)
  · rw [if_neg he]
    by_cases hin : s.Inside offset length
    · obtain ⟨bs, e⟩ := bytesAt_inside hin
      rw [e]
      exact iff_of_true (.inr ⟨hin, bs, rfl⟩) (by unfold Serializer.Inside at hin; omega)
    · rw [bytesAt_outside hin]
      refine iff_of_false ?_ (not_not.2 ?_)
      · rintro (h | ⟨h, -⟩)
        · cases h
        · exact hin h
      · have hneg : offset < 0 ∨ length < 0 := by
          by_contra hpos
          exact (exceeds_or_inside hs ho hl (by omega) (by omega)).elim he hin
        rw [hexceeds] at he
        exact ⟨hneg, by omega, by omega⟩

lemma run_unit_none {x : Read α} : ((fun _ => ()) <$> x : Read Unit).run = .ok none ↔ x.run = .ok none := by
  rw [OptionT.run_map]
  rcases x.run with e | _ | a
  · exact iff_of_false (fun h => by cases h) (fun h => by cases h)
  · exact iff_of_true rfl rfl
  · exact iff_of_false (fun h => by cases h) (fun h => by cases h)

lemma run_unit_some {x : Read α} :
    ((fun _ => ()) <$> x : Read Unit).run = .ok (some ()) ↔ ∃ a, x.run = .ok (some a) := by
  rw [OptionT.run_map]
  rcases x.run with e | _ | a
  · exact iff_of_false (fun h => by cases h) (fun ⟨_, h⟩ => by cases h)
  · exact iff_of_false (fun h => by cases h) (fun ⟨_, h⟩ => by cases h)
  · exact iff_of_true rfl ⟨a, rfl⟩

namespace SizedRead

variable {r : SizedRead}

lemma getRaw_staysInside (hs : s.Fits) (ho : IsInt offset) (hl : IsInt length) :
    (getRaw length).StaysInside s offset ↔ ¬ (getRaw length).EndsInside s offset := by
  unfold StaysInside EndsInside run width
  rw [run_unit_none, run_unit_some]
  exact getRaw_inside hs ho hl

/-- A reader of a fixed width reports what `getRaw` of that width reports. -/
lemma run_eq_getRaw (hr : r ≠ .get8) : r.run s offset = (getRaw r.width).run s offset := by
  cases r with
  | get8 => exact absurd rfl hr
  | getRaw length => rfl
  | _ => exact Functor.map_map _ _ _

lemma get8_staysInside (hs : s.Fits) (ho : IsInt offset) : get8.StaysInside s offset := by
  unfold StaysInside run
  rw [run_unit_none, run_unit_some]
  rcases get8_cases hs ho with ⟨b, ⟨pos, rfl, hw⟩, e⟩ | ⟨-, e⟩
  · have hle := hw.le
    simp only [List.length_singleton] at hle
    have hin : s.Inside pos 1 := ⟨by omega, by omega, by omega⟩
    exact .inr ⟨hin, b.toNat, by rw [e]; rfl⟩
  · exact .inl (by rw [e]; rfl)

lemma not_staysInside {e : Fault} (h : (r.run s offset).run = .error e) : ¬ r.StaysInside s offset := by
  unfold StaysInside
  rw [h]
  rintro (h | ⟨-, h⟩)
  · cases h
  · cases h

end SizedRead

/-- **A read stays in the buffer exactly if it is of one byte, or no negative offset or length is made
up for by the other.** -/
theorem stays_inside_iff (s : Serializer) (r : SizedRead) (offset : ℤ) (hs : s.mData.length ≤ 2 ^ 31 - 1)
    (ho : IsInt offset) (hl : IsInt r.width) :
    r.StaysInside s offset ↔ ¬ (r ≠ .get8 ∧ r.EndsInside s offset) := by
  have hfits : s.Fits := by
    unfold Serializer.Fits
    omega
  by_cases hr : r = .get8
  · subst hr
    exact iff_of_true (SizedRead.get8_staysInside hfits ho) (fun h => h.1 rfl)
  · have h := SizedRead.getRaw_staysInside hfits ho hl
    unfold SizedRead.StaysInside at h ⊢
    rw [SizedRead.run_eq_getRaw hr]
    exact h.trans (by simp only [hr, ne_eq, not_false_eq_true, true_and]; rfl)

/-- Four bytes from the third of six. -/
theorem stays_inside_iff_six :
    SizedRead.get32.StaysInside ⟨[0, 0, 1, 2, 3, 4]⟩ 2 ↔
      ¬ (SizedRead.get32 ≠ .get8 ∧ SizedRead.get32.EndsInside ⟨[0, 0, 1, 2, 3, 4]⟩ 2) :=
  stays_inside_iff ⟨[0, 0, 1, 2, 3, 4]⟩ .get32 2 (by decide) ⟨by decide, by decide⟩ ⟨by decide, by decide⟩

/-- Two bytes from before the beginning, and five bytes backwards. -/
theorem reads_outside :
    ¬ SizedRead.get16.StaysInside ⟨[7]⟩ (-1) ∧ ¬ (SizedRead.getRaw (-5)).StaysInside ⟨[7]⟩ 6 := by
  have h1 : (SizedRead.get16.run ⟨[7]⟩ (-1)).run = .error .outOfBounds := by decide +kernel
  have h2 : ((SizedRead.getRaw (-5)).run ⟨[7]⟩ 6).run = .error .outOfBounds := by decide +kernel
  exact ⟨SizedRead.not_staysInside h1, SizedRead.not_staysInside h2⟩

end Newcoin
