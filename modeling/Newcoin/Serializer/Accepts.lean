import Newcoin.Serializer.Position

/-!
# What the length-prefixed readers accept

A read succeeds exactly on its format: `getVL` on a prefix with its payload, `getVLLength` on the prefix
alone, `getTaggedList` on a count and that many items (`Spells`).  The loop is taken apart read by read
(`read_bind_iff`), by induction on the items that are left.
-/

namespace Newcoin

open Lib Serializer

/-- The bytes of the items of a list, one after the other, as the decoder accepts them. -/
inductive Spells : List TaggedListItem → Bytes → Prop
  | nil : Spells [] []
  | cons {list : List TaggedListItem} {p v rest : Bytes} (tag : UInt8) (h : Announces p v.length)
    (hrest : Spells list rest) : Spells (((tag.toNat : ℤ), v) :: list) (tag :: (p ++ v ++ rest))

variable {s : Serializer} {pos : ℕ} {α β : Type}

/-- A read of two parts succeeds if the first does, and the second on what it gave. -/
lemma read_bind_iff {x : Read α} {f : α → Read β} {b : β} :
    (x >>= f).run = .ok (some b) ↔ ∃ a, x.run = .ok (some a) ∧ (f a).run = .ok (some b) := by
  rw [OptionT.run_bind]
  rcases hx : x.run with e | _ | a
  · exact iff_of_false (fun h => by cases h) (by rintro ⟨a, h, -⟩; cases h)
  · exact iff_of_false (fun h => by cases h) (by rintro ⟨a, h, -⟩; cases h)
  · constructor
    · exact fun h => ⟨a, rfl, h⟩
    · rintro ⟨a', h, hf⟩
      obtain rfl : a = a' := Option.some.inj (Except.ok.inj h)
      exact hf

lemma read_pure_iff {a b : α} : (pure a : Read α).run = .ok (some b) ↔ a = b := by
  constructor
  · exact fun h => Option.some.inj (Except.ok.inj h)
  · rintro rfl
    rfl

lemma get8_accepts (hs : s.Short) (hp : pos ≤ s.mData.length) {n : ℤ} :
    (s.get8 pos).run = .ok (some n) ↔ ∃ b : UInt8, Window s.mData pos [b] ∧ n = b.toNat := by
  constructor
  · intro h
    rcases get8_cases hs.fits (isInt_pos hs hp) with ⟨b, hb, e⟩ | ⟨-, e⟩
    · exact ⟨b, holds_natCast.1 hb, (read_run_pure e h).symm⟩
    · exact (read_run_failure e h).elim
  · rintro ⟨b, hb, rfl⟩
    rw [get8_window hs hb]
    rfl

/-- **A payload is read where a prefix announces it and it stands there whole.** -/
lemma getVL_accepts (hs : s.Short) (hp : pos ≤ s.mData.length) {data : Bytes} {L : ℤ} :
    (s.getVL pos).run = .ok (some (data, L)) ↔
      ∃ p, Announces p data.length ∧ Window s.mData pos (p ++ data) ∧ L = ((p ++ data).length : ℕ) := by
  constructor
  · intro h
    rcases getVL_cases hs.fits (isInt_pos hs hp) with ⟨pos', p, v, he, ha, hw, -, e⟩ | ⟨-, e⟩ | ⟨-, e⟩
    · obtain rfl := Nat.cast_inj.1 he
      obtain ⟨rfl, rfl⟩ := Prod.ext_iff.1 (read_run_pure e h)
      exact ⟨p, ha, hw, rfl⟩
    · rw [e] at h
      cases h
    · exact (read_run_failure e h).elim
  · rintro ⟨p, ha, hw, rfl⟩
    rw [getVL_at ha hw (hw.le.trans_lt hs)]
    rfl

lemma getVLLength_accepts (hs : s.Short) (hp : pos ≤ s.mData.length) {n : ℤ} :
    (s.getVLLength pos).run = .ok (some n) ↔
      ∃ (p : Bytes) (m : ℕ), Announces p m ∧ Window s.mData pos p ∧ n = m := by
  constructor
  · intro h
    obtain ⟨pos', m, he, rfl, ha, hw⟩ := announces_of_getVLLength hs.fits (isInt_pos hs hp) h
    obtain rfl := Nat.cast_inj.1 he
    exact ⟨_, m, ha, hw, rfl⟩
  · rintro ⟨p, m, ha, hw, rfl⟩
    rw [getVLLength_eq, vlPrefix_at ha hw (hw.le.trans hs.le), map_pure]
    rfl

/-- **The loop reads the items that are spelled out from where it starts**, by induction on the items. -/
lemma getTaggedItems_accepts (hs : s.Short) (n : ℕ) (hp : pos ≤ s.mData.length) {list : List TaggedListItem}
    {offset : ℤ} :
    (s.getTaggedItems n pos).run = .ok (some (list, offset)) ↔ list.length = n ∧
      ∃ bytes, Spells list bytes ∧ Window s.mData pos bytes ∧ offset = (pos + bytes.length : ℕ) := by
  induction n generalizing pos list offset with
  | zero =>
    rw [getTaggedItems, read_pure_iff]
    constructor
    · rintro ⟨rfl, rfl⟩
      exact ⟨rfl, [], .nil, ⟨s.mData.take pos, s.mData.drop pos, by simp, by simpa using hp⟩, rfl⟩
    · rintro ⟨hlist, bytes, hsp, -, rfl⟩
      obtain rfl := List.length_eq_zero_iff.1 hlist
      cases hsp
      rfl
  | succ n ih =>
    rw [getTaggedItems, read_bind_iff]
    constructor
    · rintro ⟨tag, htag, h⟩
      obtain ⟨b, wb, rfl⟩ := (get8_accepts hs hp).1 htag
      have hp1 : pos + 1 ≤ s.mData.length := wb.le
      rw [toInt_succ hs hp1] at h
      obtain ⟨⟨v, len⟩, hv, h⟩ := read_bind_iff.1 h
      obtain ⟨p, ha, hw, rfl⟩ := (getVL_accepts hs hp1).1 hv
      simp only [toInt_add hs hw.le] at h
      obtain ⟨⟨list', offset'⟩, hrest, h⟩ := read_bind_iff.1 h
      obtain ⟨hlen, bytes, hsp, hw', rfl⟩ := (ih hw.le).1 hrest
      obtain ⟨rfl, rfl⟩ := Prod.ext_iff.1 (read_pure_iff.1 h)
      refine ⟨by simp [hlen], b :: (p ++ v ++ bytes), .cons b ha hsp, ?_, ?_⟩
      · exact window_cons.2 ⟨wb, window_append.2 ⟨hw, hw'⟩⟩
      · simp only [List.length_cons, List.length_append]
        omega
    · rintro ⟨hlist, bytes, hsp, hw, rfl⟩
      cases hsp with
      | nil => cases hlist
      | @cons list p v rest tag ha hrest =>
        obtain ⟨wb, hw⟩ := window_cons.1 hw
        obtain ⟨hw, hw'⟩ := window_append.1 hw
        have hp1 : pos + 1 ≤ s.mData.length := wb.le
        refine ⟨_, (get8_accepts hs hp).2 ⟨tag, wb, rfl⟩, ?_⟩
        rw [toInt_succ hs hp1, read_bind_iff]
        refine ⟨_, (getVL_accepts hs hp1).2 ⟨p, ha, hw, rfl⟩, ?_⟩
        simp only [toInt_add hs hw.le, read_bind_iff]
        refine ⟨_, (ih hw.le).2 ⟨Nat.succ.inj hlist, rest, hrest, hw', rfl⟩, ?_⟩
        rw [read_pure_iff]
        simp only [List.length_cons, List.length_append, Prod.mk.injEq, true_and]
        omega

lemma getTaggedList_accepts (hs : s.Short) (hp : pos ≤ s.mData.length) {list : List TaggedListItem} {L : ℤ} :
    (s.getTaggedList pos).run = .ok (some (list, L)) ↔
      ∃ (count : UInt8) (bytes : Bytes), count.toNat = list.length ∧ Spells list bytes ∧
        Window s.mData pos (count :: bytes) ∧ L = ((count :: bytes).length : ℕ) := by
  unfold getTaggedList
  rw [read_bind_iff]
  have back {m : ℕ} (h : pos + (m + 1) ≤ s.mData.length) :
      toInt ((pos + 1 + m : ℕ) - (pos : ℤ)) = (m + 1 : ℕ) := by
    rw [show ((pos + 1 + m : ℕ) - (pos : ℤ)) = (m + 1 : ℕ) by omega]
    exact toInt_pos hs (by omega)
  constructor
  · rintro ⟨n, hn, h⟩
    obtain ⟨count, wc, rfl⟩ := (get8_accepts hs hp).1 hn
    rw [toInt_succ hs wc.le, Int.toNat_natCast] at h
    obtain ⟨⟨list', offset⟩, hlist, h⟩ := read_bind_iff.1 h
    obtain ⟨hlen, bytes, hsp, hw, rfl⟩ := (getTaggedItems_accepts hs _ wc.le).1 hlist
    have hwhole := window_cons.2 ⟨wc, hw⟩
    obtain ⟨rfl, rfl⟩ := Prod.ext_iff.1 (read_pure_iff.1 h)
    exact ⟨count, bytes, hlen.symm, hsp, hwhole, back hwhole.le⟩
  · rintro ⟨count, bytes, hlen, hsp, hwhole, rfl⟩
    obtain ⟨wc, hw⟩ := window_cons.1 hwhole
    refine ⟨_, (get8_accepts hs hp).2 ⟨count, wc, rfl⟩, ?_⟩
    rw [toInt_succ hs wc.le, Int.toNat_natCast, read_bind_iff]
    refine ⟨_, (getTaggedItems_accepts hs _ wc.le).2 ⟨hlen.symm, bytes, hsp, hw, rfl⟩, ?_⟩
    rw [read_pure_iff]
    exact congrArg (Prod.mk list) (back hwhole.le)

/-- **The readers succeed exactly on the format**, and the length read alone is that of the payload. -/
theorem vl_reads_accept (s : Serializer) (pos : ℕ) (hs : s.mData.length < 2 ^ 30) (hp : pos ≤ s.mData.length) :
    (∀ data L, (s.getVL pos).run = .ok (some (data, L)) ↔
      ∃ p, Announces p data.length ∧ Window s.mData pos (p ++ data) ∧ L = ((p ++ data).length : ℕ)) ∧
    (∀ n, (s.getVLLength pos).run = .ok (some n) ↔
      ∃ (p : Bytes) (m : ℕ), Announces p m ∧ Window s.mData pos p ∧ n = m) ∧
    (∀ data L, (s.getVL pos).run = .ok (some (data, L)) →
      (s.getVLLength pos).run = .ok (some (data.length : ℤ))) ∧
    (∀ list L, (s.getTaggedList pos).run = .ok (some (list, L)) ↔
      ∃ (count : UInt8) (bytes : Bytes), count.toNat = list.length ∧ Spells list bytes ∧
        Window s.mData pos (count :: bytes) ∧ L = ((count :: bytes).length : ℕ)) := by
  have hs : s.Short := by
    unfold Serializer.Short
    omega
  refine ⟨fun data L => getVL_accepts hs hp, fun n => getVLLength_accepts hs hp, fun data L h => ?_,
    fun list L => getTaggedList_accepts hs hp⟩
  obtain ⟨p, ha, hw, -⟩ := (getVL_accepts hs hp).1 h
  exact (getVLLength_accepts hs hp).2 ⟨p, data.length, ha, (window_append.1 hw).1, rfl⟩

/-- Two items, the second without a payload. -/
theorem vl_reads_accept_two_items :
    ∃ (count : UInt8) (bytes : Bytes), count.toNat = 2 ∧ Spells [(7, [9]), (8, [])] bytes ∧
      Window (Serializer.mk [2, 7, 1, 9, 8, 0]).mData 0 (count :: bytes) ∧ 6 = (((count :: bytes).length : ℕ) : ℤ) :=
  ((vl_reads_accept ⟨[2, 7, 1, 9, 8, 0]⟩ 0 (by decide) (by decide)).2.2.2 [(7, [9]), (8, [])] 6).1
    (by decide +kernel)

end Newcoin
