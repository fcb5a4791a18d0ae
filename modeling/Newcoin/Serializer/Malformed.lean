import Newcoin.Serializer.Prefix

/-!
# Length prefixes that the encoder does not write

Two kinds get past the check for accepted prefixes.  The top of the three-byte range announces lengths
above the encoder's largest (`getVLLength_canonical`).  The reserved byte 255 is looked at before the
`try` begins, so the exception it raises is not caught (`vl_reads_return`).
-/

namespace Newcoin

open Lib Serializer

variable {s : Serializer} {offset : ℤ} {pos : ℕ}

/-! ### Canonical prefixes -/

/-- The bytes that `getVLLength` goes over. -/
def Serializer.vlConsumed (s : Serializer) (offset : ℤ) : Bytes :=
  match (s.vlPrefix offset).run with
  | .ok (some (lenLen, _, _)) => (s.mData.drop offset.toNat).take lenLen.toNat
  | _ => []

lemma getVLLength_eq : s.getVLLength offset = (fun x => x.2.1) <$> s.vlPrefix offset := by
  unfold getVLLength
  exact bind_pure_comp _ _

/-- A length comes from an accepted prefix. -/
lemma announces_of_getVLLength (hs : s.Fits) (ho : IsInt offset) {n : ℤ}
    (h : (s.getVLLength offset).run = .ok (some n)) :
    ∃ (pos m : ℕ), offset = pos ∧ n = m ∧ Announces (s.vlConsumed offset) m ∧
      Window s.mData pos (s.vlConsumed offset) := by
  rw [getVLLength_eq] at h
  rcases vlPrefix_cases hs ho with ⟨pos, p, m, rfl, ha, hw, -, e⟩ | ⟨-, e⟩ | ⟨-, e⟩
  · have hc : s.vlConsumed pos = p := by
      unfold Serializer.vlConsumed
      rw [e]
      exact hw.take_drop
    have hn : (.ok (some (m : ℤ)) : Except Fault (Option ℤ)) = .ok (some n) := by
      rw [← h, e]
      rfl
    injection hn with hn
    injection hn with hn
    exact ⟨pos, m, rfl, hn.symm, hc.symm ▸ ha, hc.symm ▸ hw⟩
  · rw [e] at h
    cases h
  · rw [e] at h
    cases h

/-- **A length that is read has the encoder's prefix unless the prefix is 254 and two bytes above
54295, and no length has two prefixes.** -/
theorem getVLLength_canonical (s : Serializer) (pos : ℕ) (n : ℤ) (hs : s.Fits) (hp : pos < 2 ^ 31)
    (h : (s.getVLLength pos).run = .ok (some n)) :
    (encodeVL n = .ok (s.vlConsumed pos) ↔
      ¬ ∃ b2 b3 : UInt8, Window s.mData pos [254, b2, b3] ∧ 54295 < b2.toNat * 256 + b3.toNat) ∧
    ∀ (s' : Serializer) (pos' : ℕ), s'.Fits → pos' < 2 ^ 31 →
      (s'.getVLLength pos').run = .ok (some n) → s'.vlConsumed pos' = s.vlConsumed pos := by
  have isInt {p : ℕ} (hp : p < 2 ^ 31) : IsInt p := ⟨by omega, by omega⟩
  obtain ⟨q, m, he, rfl, ha, hw⟩ := announces_of_getVLLength hs (isInt hp) h
  obtain rfl := Nat.cast_inj.1 he
  constructor
  · rw [ha.encodeVL_iff, ← not_lt, ha.maxVL_lt_iff, not_iff_not]
    constructor
    · rintro ⟨b2, b3, hc, hb⟩
      exact ⟨b2, b3, hc ▸ hw, hb⟩
    · rintro ⟨b2, b3, hw', hb⟩
      have ha' : Announces [254, b2, b3] (12481 + ((254 : UInt8).toNat - 241) * 65536 + b2.toNat * 256 + b3.toNat) :=
        .three b2 b3 (by decide) (by decide)
      exact ⟨b2, b3, ha.window_unique ha' hw hw', hb⟩
  · intro s' pos' hs' hp' h'
    obtain ⟨q', m', -, he', ha', -⟩ := announces_of_getVLLength hs' (isInt hp') h'
    obtain rfl := Nat.cast_inj.1 he'
    exact ha'.unique ha

/-- The prefix of a payload of 300 bytes. -/
theorem getVLLength_canonical_three_hundred :
    (encodeVL 300 = .ok (Serializer.vlConsumed ⟨[193, 107]⟩ (0 : ℕ)) ↔
      ¬ ∃ b2 b3 : UInt8, Window (Serializer.mk [193, 107]).mData 0 [254, b2, b3] ∧
        54295 < b2.toNat * 256 + b3.toNat) ∧
    ∀ (s' : Serializer) (pos' : ℕ), s'.Fits → pos' < 2 ^ 31 →
      (s'.getVLLength pos').run = .ok (some 300) →
        s'.vlConsumed pos' = Serializer.vlConsumed ⟨[193, 107]⟩ (0 : ℕ) :=
  getVLLength_canonical ⟨[193, 107]⟩ 0 300 (by decide) (by decide) (by decide +kernel)

/-- The first prefix past the encoder's range is read as a length that the encoder refuses. -/
theorem getVLLength_past_encoder :
    let s : Serializer := ⟨[254, 212, 24]⟩
    (s.getVLLength 0).run = .ok (some 918745) ∧ encodeVL 918745 ≠ .ok (s.vlConsumed 0) := by
  decide +kernel

/-! ### Exceptions -/

/-- The bytes of `n` items of a tagged list, as the decoder accepts them. -/
inductive Items : ℕ → Bytes → Prop
  | nil : Items 0 []
  | cons {n : ℕ} {p v rest : Bytes} (tag : UInt8) (h : Announces p v.length) (hrest : Items n rest) :
    Items (n + 1) (tag :: (p ++ v ++ rest))

/-- In front of one of `n` items at `offset` stands the reserved byte 255 in the place of a prefix. -/
def Serializer.ReservedItem (s : Serializer) (n : ℕ) (offset : ℤ) : Prop :=
  ∃ (k : ℕ) (items : Bytes) (tag : UInt8), k < n ∧ Items k items ∧
    s.Holds offset (items ++ [tag, 255]) ∧ offset + items.length + 1 < 2 ^ 31

/-- The list at `pos` has the reserved byte 255 in the place of one of its prefixes. -/
def Serializer.ReservedList (s : Serializer) (pos : ℕ) : Prop :=
  ∃ count : UInt8, Window s.mData pos [count] ∧ s.ReservedItem count.toNat (toInt (pos + 1))

lemma getVL_returns (hs : s.Fits) (ho : IsInt offset) :
    Returns (s.getVL offset) ↔ ¬ s.Holds offset [255] := by
  rcases getVL_cases hs ho with ⟨pos, p, v, rfl, ha, hw, -, e⟩ | ⟨h, e⟩ | ⟨h, e⟩
  · rw [e]
    exact iff_of_true (returns_pure _) fun h =>
      ha.not_reserved (window_append.1 hw).1 (holds_natCast.1 h)
  · rw [e]
    exact iff_of_false (not_returns_throw _) (not_not.2 h)
  · rw [e]
    exact iff_of_true returns_failure h

lemma getVLLength_returns (hs : s.Fits) (ho : IsInt offset) :
    Returns (s.getVLLength offset) ↔ ¬ s.Holds offset [255] := by
  rw [getVLLength_eq]
  rcases vlPrefix_cases hs ho with ⟨pos, p, n, rfl, ha, hw, -, e⟩ | ⟨h, e⟩ | ⟨h, e⟩
  · rw [e, map_pure]
    exact iff_of_true (returns_pure _) fun h => ha.not_reserved hw (holds_natCast.1 h)
  · rw [e]
    exact iff_of_false (not_returns_throw _) (not_not.2 h)
  · rw [e]
    exact iff_of_true returns_failure h

/-- What follows on a read of a tag and a payload. -/
lemma getTaggedItems_succ {n : ℕ} {b : UInt8} {v : Bytes} {len : ℤ} (h1 : s.get8 offset = pure (b.toNat : ℤ))
    (h2 : s.getVL (toInt (offset + 1)) = pure (v, len)) :
    s.getTaggedItems (n + 1) offset
      = (fun x => (((b.toNat : ℤ), v) :: x.1, x.2)) <$> s.getTaggedItems n (toInt (toInt (offset + 1) + len)) := by
  rw [getTaggedItems, h1, pure_bind]
  simp only [h2, pure_bind]
  exact bind_pure_comp _ _

/-- What follows on a read of the count. -/
lemma getTaggedList_of_count {b : UInt8} (h : s.get8 offset = pure (b.toNat : ℤ)) : s.getTaggedList offset
    = (fun x => (x.1, toInt (x.2 - offset))) <$> s.getTaggedItems b.toNat (toInt (offset + 1)) := by
  unfold getTaggedList
  rw [h, pure_bind, Int.toNat_natCast]
  exact bind_pure_comp _ _

lemma returns_map {α β : Type} {f : α → β} {x : Read α} : Returns (f <$> x) ↔ Returns x := by
  unfold Returns
  rw [OptionT.run_map]
  cases x.run with
  | ok o => exact iff_of_true ⟨_, rfl⟩ ⟨_, rfl⟩
  | error e => exact iff_of_false (by rintro ⟨o, ⟨⟩⟩) (by rintro ⟨o, ⟨⟩⟩)

lemma read_pure_inj {α : Type} {a b : α} (h : (pure a : Read α) = pure b) : a = b := by
  have h' : (.ok (some a) : Except Fault (Option α)) = .ok (some b) := congrArg OptionT.run h
  injection h' with h'
  injection h'

lemma read_pure_ne_failure {α : Type} {a : α} : (pure a : Read α) ≠ failure := by
  intro h
  have h' : (.ok (some a) : Except Fault (Option α)) = .ok none := congrArg OptionT.run h
  injection h' with h'
  cases h'

/-- The reserved byte is behind the first tag, or the first item is whole and it comes later. -/
lemma reservedItem_succ {n : ℕ} (h : s.ReservedItem (n + 1) pos) :
    (Window s.mData (pos + 1) [255] ∧ pos + 1 < 2 ^ 31) ∨
    ∃ p v, Announces p v.length ∧ Window s.mData (pos + 1) (p ++ v) ∧
      pos + 1 + (p ++ v).length < 2 ^ 31 ∧ s.ReservedItem n ((pos + 1 + (p ++ v).length : ℕ) : ℤ) := by
  obtain ⟨k, items, tag, hk, hitems, hholds, hlt⟩ := h
  have hw := holds_natCast.1 hholds
  cases hitems with
  | nil =>
    simp only [List.length_nil] at hlt
    exact .inl ⟨(window_cons.1 hw).2, by omega⟩
  | @cons k p v rest tag' ha hrest =>
    have hw' : Window s.mData pos (tag' :: ((p ++ v) ++ (rest ++ [tag, 255]))) := by
      simpa using hw
    obtain ⟨w1, w2⟩ := window_append.1 (window_cons.1 hw').2
    have hlen : (tag' :: (p ++ v ++ rest)).length = 1 + (p ++ v).length + rest.length := by
      simp
      omega
    rw [hlen] at hlt
    exact .inr ⟨p, v, ha, w1, by omega, k, rest, tag, by omega, hrest, holds_natCast.2 w2, by omega⟩

/-- An item in front of a list that is cut so. -/
lemma ReservedItem.cons {n : ℕ} {b : UInt8} {p v : Bytes} (wb : Window s.mData pos [b])
    (ha : Announces p v.length) (hw : Window s.mData (pos + 1) (p ++ v))
    (h : s.ReservedItem n ((pos + 1 + (p ++ v).length : ℕ) : ℤ)) : s.ReservedItem (n + 1) pos := by
  obtain ⟨k, items, tag, hk, hitems, hholds, hlt⟩ := h
  have hwhole : Window s.mData pos (b :: ((p ++ v) ++ (items ++ [tag, 255]))) :=
    window_cons.2 ⟨wb, window_append.2 ⟨hw, holds_natCast.1 hholds⟩⟩
  refine ⟨k + 1, b :: (p ++ v ++ items), tag, by omega, .cons b ha hitems, holds_natCast.2 ?_, ?_⟩
  · simpa using hwhole
  · simp only [List.length_cons, List.length_append] at hlt ⊢
    omega

/-- **The loop comes back unless it gets to a reserved byte**, by induction on the items to read: behind
an item that is read, the reserved byte is in front of a later one. -/
lemma getTaggedItems_returns (hs : s.Fits) (n : ℕ) (ho : IsInt offset) :
    Returns (s.getTaggedItems n offset) ↔ ¬ s.ReservedItem n offset := by
  induction n generalizing offset with
  | zero =>
    refine iff_of_true (returns_pure _) ?_
    rintro ⟨k, items, tag, hk, -⟩
    omega
  | succ n ih =>
    rcases get8_cases hs ho with ⟨b, ⟨pos, rfl, wb⟩, e1⟩ | ⟨hno, e1⟩
    · obtain ⟨-, hp⟩ := ho
      rcases getVL_cases hs (isInt_toInt (pos + 1)) with ⟨pos', p, v, he, ha, hw, hlt, e2⟩ | ⟨h255, e2⟩ | ⟨h255, e2⟩
      · have hlt' : pos + 1 < 2 ^ 31 := by
          by_contra hge
          rw [toInt_wrap (by omega) (by omega)] at he
          omega
        rw [succ_natCast hlt'] at he
        obtain rfl := Nat.cast_inj.1 he
        rw [getTaggedItems_succ e1 e2, returns_map, ih (isInt_toInt _), not_iff_not, succ_natCast hlt',
          ← Nat.cast_add, toInt_eq (by omega) (by omega)]
        constructor
        · exact ReservedItem.cons wb ha hw
        · intro h
          rcases reservedItem_succ h with ⟨w255, -⟩ | ⟨p', v', ha', hw', hlt', h'⟩
          · exact absurd w255 (ha.not_reserved (window_append.1 hw).1)
          · have hsame := read_pure_inj ((getVL_at ha hw hlt).symm.trans (getVL_at ha' hw' hlt'))
            rwa [Nat.cast_inj.1 (Prod.ext_iff.1 hsame).2]
      · obtain ⟨w, hlt⟩ := holds_cons (by omega) wb h255
        rw [getTaggedItems, e1, pure_bind]
        simp only [e2, throw_bind]
        refine iff_of_false (not_returns_throw _) (not_not.2 ?_)
        exact ⟨0, [], b, by omega, .nil, holds_natCast.2 w, by simp; omega⟩
      · rw [getTaggedItems, e1, pure_bind]
        simp only [e2, failure_bind]
        refine iff_of_true returns_failure fun h => ?_
        rcases reservedItem_succ h with ⟨w255, hlt⟩ | ⟨p, v, ha, hw, hlt, -⟩
        · rw [succ_natCast hlt] at h255
          exact h255 (holds_natCast.2 w255)
        · rw [succ_natCast (by omega), getVL_at ha hw hlt] at e2
          exact read_pure_ne_failure e2
    · rw [getTaggedItems, e1, failure_bind]
      refine iff_of_true returns_failure ?_
      rintro ⟨k, items, tag, hk, hitems, ⟨pos, rfl, hw⟩, -⟩
      cases items with
      | nil => exact hno tag ⟨pos, rfl, (window_cons.1 hw).1⟩
      | cons c items => exact hno c ⟨pos, rfl, (window_cons.1 hw).1⟩

lemma getTaggedList_returns (hs : s.Fits) (hp : pos < 2 ^ 31) :
    Returns (s.getTaggedList pos) ↔ ¬ s.ReservedList pos := by
  have ho : IsInt pos := ⟨by omega, by omega⟩
  rcases get8_cases hs ho with ⟨b, hb, e⟩ | ⟨hno, e⟩
  · rw [getTaggedList_of_count e, returns_map, getTaggedItems_returns hs _ (isInt_toInt _), not_iff_not]
    constructor
    · exact fun h => ⟨b, holds_natCast.1 hb, h⟩
    · rintro ⟨c, hc, h⟩
      rwa [holds_singleton_unique (holds_natCast.1 hb) hc]
  · unfold getTaggedList
    rw [e, failure_bind]
    exact iff_of_true returns_failure fun ⟨b, hb, _⟩ => hno b (holds_natCast.2 hb)

/-- **The readers of prefixes come back, with `true` or `false`, exactly where they do not meet the
reserved byte 255 in the place of a prefix.** -/
theorem vl_reads_return (s : Serializer) (pos : ℕ) (hs : s.Fits) (hp : pos < 2 ^ 31) :
    (Returns (s.getVL pos) ↔ ¬ Window s.mData pos [255]) ∧
    (Returns (s.getVLLength pos) ↔ ¬ Window s.mData pos [255]) ∧
    (Returns (s.getTaggedList pos) ↔ ¬ s.ReservedList pos) := by
  have ho : IsInt pos := ⟨by omega, by omega⟩
  refine ⟨?_, ?_, getTaggedList_returns hs hp⟩
  · rw [getVL_returns hs ho, holds_natCast]
  · rw [getVLLength_returns hs ho, holds_natCast]

/-- A list whose second payload has the reserved byte for a prefix. -/
theorem vl_reads_return_second_item :
    let s : Serializer := ⟨[2, 7, 1, 9, 8, 255]⟩
    (Returns (s.getVL (0 : ℕ)) ↔ ¬ Window s.mData 0 [255]) ∧
    (Returns (s.getVLLength (0 : ℕ)) ↔ ¬ Window s.mData 0 [255]) ∧
    (Returns (s.getTaggedList (0 : ℕ)) ↔ ¬ s.ReservedList 0) :=
  vl_reads_return ⟨[2, 7, 1, 9, 8, 255]⟩ 0 (by decide) (by decide)

lemma not_returns_of_error {α : Type} {x : Read α} {e : Fault} (h : x.run = .error e) : ¬ Returns x := by
  rintro ⟨o, ho⟩
  cases h.symm.trans ho

/-- The reserved byte alone, and in the place of a list's first prefix. -/
theorem vl_reads_reserved :
    ¬ Returns (Serializer.getVL ⟨[255]⟩ 0) ∧ ¬ Returns (Serializer.getVLLength ⟨[255]⟩ 0) ∧
    ¬ Returns (Serializer.getTaggedList ⟨[1, 0, 255]⟩ 0) := by
  have h1 : (Serializer.getVL ⟨[255]⟩ 0).run = .error (.overflowError "b1>254") := by decide +kernel
  have h2 : (Serializer.getVLLength ⟨[255]⟩ 0).run = .error (.overflowError "b1>254") := by decide +kernel
  have h3 : (Serializer.getTaggedList ⟨[1, 0, 255]⟩ 0).run = .error (.overflowError "b1>254") := by
    decide +kernel
  exact ⟨not_returns_of_error h1, not_returns_of_error h2, not_returns_of_error h3⟩

end Newcoin
