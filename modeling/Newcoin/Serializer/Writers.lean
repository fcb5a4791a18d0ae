import Newcoin.Serializer.Malformed
import Newcoin.Serializer.RoundTrip

/-!
# Writers that throw, and lengths worked out in advance

`addVL` asks for its prefix before it writes; `addTaggedList` writes the count and the items in front
of the one it then throws at (`refused_writes`).  `encodeLengthLength` has its last comparison the
wrong way round, and what is computed from it inherits the gap (`lengths_right`).
-/

namespace Newcoin

open Lib Serializer

/-! ### Exceptions -/

lemma write_bind_error {α β : Type} {x : Write α} {f : α → Write β} {s s' : Serializer} {e : Fault}
    (h : x.run s = (.error e, s')) : (x >>= f).run s = (.error e, s') := by
  show (x >>= f) s = _
  have h' : x s = (.error e, s') := h
  simp only [bind, ExceptT.bind, ExceptT.mk, StateT.bind, ExceptT.bindCont, h']
  rfl

lemma encodeVL_cases (length : ℤ) : (length ≤ maxVL ∧ ∃ p, encodeVL length = .ok p) ∨
    (maxVL < length ∧ encodeVL length = .error (.overflowError "lenlen")) := by
  unfold maxVL encodeVL
  by_cases h : length ≤ 918744
  · left
    refine ⟨h, ?_⟩
    split
    · exact ⟨_, rfl⟩
    · split
      · exact ⟨_, rfl⟩
      · exact ⟨_, rfl⟩
  · right
    refine ⟨by omega, ?_⟩
    rw [if_neg (by omega), if_neg (by omega), if_neg h]

lemma lift_run {α : Type} (x : Except Fault α) (s : Serializer) : (liftM x : Write α).run s = (x, s) := by
  cases x <;> rfl

/-- The two ways through `addVL`. -/
lemma addVL_cases (v : Bytes) (s : Serializer) :
    (toInt v.length ≤ maxVL ∧ ∃ p, (addVL v).run s = (.ok (toInt s.mData.length), ⟨s.mData ++ p ++ v⟩)) ∨
    (maxVL < toInt v.length ∧ (addVL v).run s = (.error (.overflowError "lenlen"), s)) := by
  unfold addVL
  rcases encodeVL_cases (toInt v.length) with ⟨h, p, e⟩ | ⟨h, e⟩
  · refine .inl ⟨h, p, ?_⟩
    rw [e]
    exact (write_bind (lift_run _ _)).trans ((write_bind (addRaw_run _ _)).trans (write_bind (addRaw_run _ _)))
  · refine .inr ⟨h, ?_⟩
    rw [e]
    exact write_bind_error (lift_run _ _)

lemma addVLPtr_throws {bytes : Bytes} {len : ℤ} {s : Serializer} {what : String}
    (h : ((addVLPtr bytes len).run s).1 = .error (.overflowError what)) :
    ((addVLPtr bytes len).run s).2 = s := by
  unfold addVLPtr at h ⊢
  rcases encodeVL_cases len with ⟨-, p, e⟩ | ⟨-, e⟩
  · rw [e, write_bind (lift_run _ _), write_bind (addRaw_run _ _)] at h
    by_cases h0 : len = 0
    · simp only [h0, ne_eq, not_true_eq_false, if_false] at h
      cases h
    · simp only [h0, ne_eq, not_false_eq_true, if_true] at h
      by_cases hb : 0 ≤ len ∧ len ≤ bytes.length
      · have hr := addRaw_run (bytes.take len.toNat) ⟨s.mData ++ p⟩
        rw [← show addRawPtr bytes len = _ from if_pos hb] at hr
        rw [write_bind hr] at h
        cases h
      · have hr : (addRawPtr bytes len).run ⟨s.mData ++ p⟩ = (.error .outOfBounds, ⟨s.mData ++ p⟩) := by
          unfold addRawPtr
          rw [if_neg hb]
          rfl
        rw [write_bind_error hr] at h
        cases h
  · rw [e, write_bind_error (lift_run _ _)]

/-- The items written before the loop ends, or before it throws at one that is too long. -/
lemma addTaggedItems_cases (list : List TaggedListItem) (s : Serializer) :
    ((∀ it ∈ list, toInt it.2.length ≤ maxVL) ∧
      ∃ bs, (addTaggedItems list).run s = (.ok (), ⟨s.mData ++ bs⟩)) ∨
    ((∃ it ∈ list, maxVL < toInt it.2.length) ∧
      ∃ bs, (addTaggedItems list).run s = (.error (.overflowError "lenlen"), ⟨s.mData ++ bs⟩)) := by
  induction list generalizing s with
  | nil => exact .inl ⟨by simp, [], by rw [List.append_nil]; rfl⟩
  | cons it list ih =>
    unfold addTaggedItems
    rw [write_bind (show (add8 (toUChar it.1)).run s = _ from addRaw_run _ _)]
    rcases addVL_cases it.2 ⟨s.mData ++ [toUChar it.1]⟩ with ⟨h, p, e⟩ | ⟨h, e⟩
    · rw [write_bind e]
      rcases ih ⟨s.mData ++ [toUChar it.1] ++ p ++ it.2⟩ with ⟨hall, bs, e'⟩ | ⟨⟨it', hmem, hit'⟩, bs, e'⟩
      · left
        refine ⟨List.forall_mem_cons.2 ⟨h, hall⟩, [toUChar it.1] ++ p ++ it.2 ++ bs, ?_⟩
        rw [e']
        simp only [List.append_assoc]
      · right
        refine ⟨⟨it', List.mem_cons_of_mem _ hmem, hit'⟩, [toUChar it.1] ++ p ++ it.2 ++ bs, ?_⟩
        rw [e']
        simp only [List.append_assoc]
    · exact .inr ⟨⟨it, List.mem_cons_self .., h⟩, [toUChar it.1], write_bind_error e⟩

/-- `addTaggedList` throws, or returns -1 for a list that is too long. -/
def RefusesTaggedList (s : Serializer) (list : List TaggedListItem) : Prop :=
  (∃ e, ((addTaggedList list).run s).1 = .error e) ∨
    (255 < toInt list.length ∧ ((addTaggedList list).run s).1 = .ok (-1))

lemma addTaggedList_refused (s : Serializer) (list : List TaggedListItem) :
    (RefusesTaggedList s list → ((addTaggedList list).run s).2 = s) ↔
      255 < toInt list.length ∨ toInt list.length = 0 ∨ ∀ it ∈ list, toInt it.2.length ≤ maxVL := by
  by_cases h255 : 255 < toInt list.length
  · have e : (addTaggedList list).run s = (.ok (-1), s) := by
      unfold addTaggedList
      simp only
      rw [if_pos h255]
      rfl
    rw [e]
    exact iff_of_true (fun _ => rfl) (.inl h255)
  · by_cases h0 : toInt list.length = 0
    · have e : (addTaggedList list).run s = (.ok (toInt s.mData.length), ⟨s.mData ++ [0]⟩) := by
        unfold addTaggedList
        simp only [h0]
        rw [if_neg (by omega)]
        rfl
      refine iff_of_true ?_ (.inr (.inl h0))
      rintro (⟨e', h⟩ | ⟨h, -⟩)
      · rw [e] at h
        cases h
      · exact absurd h h255
    · have step : (addTaggedList list).run s = (addTaggedItems list >>= fun _ =>
          (pure (toInt s.mData.length) : Write ℤ)).run ⟨s.mData ++ [toUChar (toInt list.length)]⟩ := by
        unfold addTaggedList
        simp only
        rw [if_neg h255, write_bind (show (add8 (toUChar (toInt list.length))).run s = _ from addRaw_run _ _),
          if_pos h0]
      rw [step]
      rcases addTaggedItems_cases list ⟨s.mData ++ [toUChar (toInt list.length)]⟩ with ⟨hall, bs, e⟩ | ⟨hlong, bs, e⟩
      · refine iff_of_true ?_ (.inr (.inr hall))
        rintro (⟨e', h⟩ | ⟨h, -⟩)
        · rw [step, write_bind e] at h
          cases h
        · exact absurd h h255
      · rw [write_bind_error e]
        refine iff_of_false ?_ ?_
        · intro h
          have hlen := congrArg (fun s => s.mData.length) (h (.inl ⟨_, by rw [step, write_bind_error e]⟩))
          simp at hlen
        · rintro (h | h | h)
          · exact h255 h
          · exact h0 h
          · obtain ⟨it, hmem, hit⟩ := hlong
            exact absurd (h it hmem) (by omega)

/-- **A call that refuses its argument leaves the buffer as it was**: `addVL` always, `addTaggedList`
exactly where no payload makes it throw after the count is written. -/
theorem refused_writes (s : Serializer) :
    (∀ v e, ((addVL v).run s).1 = .error e → ((addVL v).run s).2 = s) ∧
    (∀ bytes len what, ((addVLPtr bytes len).run s).1 = .error (.overflowError what) →
      ((addVLPtr bytes len).run s).2 = s) ∧
    ∀ list, (RefusesTaggedList s list → ((addTaggedList list).run s).2 = s) ↔
      255 < toInt list.length ∨ toInt list.length = 0 ∨ ∀ it ∈ list, toInt it.2.length ≤ maxVL := by
  refine ⟨?_, fun _ _ _ => addVLPtr_throws, addTaggedList_refused s⟩
  intro v e h
  rcases addVL_cases v s with ⟨-, p, he⟩ | ⟨-, he⟩
  · rw [he] at h
    cases h
  · rw [he]

/-- One payload a byte too long: the count and the tag are left in the buffer. -/
theorem addTaggedList_partial :
    let list : List TaggedListItem := [(0, List.replicate 918745 0)]
    ¬ (RefusesTaggedList ⟨[]⟩ list → ((addTaggedList list).run ⟨[]⟩).2 = ⟨[]⟩) := by
  intro list
  have hlen : toInt (List.replicate 918745 (0 : UInt8)).length = 918745 := by
    rw [List.length_replicate]
    exact toInt_eq (by norm_num) (by norm_num)
  rw [addTaggedList_refused]
  rintro (h | h | h)
  · exact absurd h (by decide +kernel)
  · exact absurd h (by decide +kernel)
  · have := h _ (List.mem_singleton_self _)
    rw [hlen] at this
    exact absurd this (by decide)

/-! ### Lengths -/

/-- What `encodeLengthLength` is to give for `length`: the size of the prefix, or an exception where
there is none. -/
def LengthLengthRight (length : ℤ) : Prop :=
  if 0 ≤ length ∧ length ≤ maxVL then
    ∃ p, encodeVL length = .ok p ∧ encodeLengthLength length = .ok (p.length : ℤ)
  else ∃ e, encodeLengthLength length = .error e

lemma length_vlHeader {n : ℕ} (hn : n ≤ maxVL) :
    (vlHeader n).length = if n ≤ 192 then 1 else if n ≤ 12480 then 2 else 3 := by
  rcases vlHeader_cases hn with ⟨h1, b1, e, -⟩ | ⟨h1, h2, b1, b2, e, -⟩ | ⟨h1, b1, b2, b3, e, -⟩
  · rw [e, if_pos h1]
    rfl
  · rw [e, if_neg (by omega), if_pos h2]
    rfl
  · rw [e, if_neg (by omega), if_neg (by omega)]
    rfl

/-- The lengths for which the prefix size is worked out right. -/
def LengthKnown (n : ℕ) : Prop := n ≤ 12480 ∨ n = 918744

instance : DecidablePred LengthKnown := fun n => by unfold LengthKnown; infer_instance

/-- **On the lengths that have a prefix, `encodeLengthLength` is right up to 12480 and at the last.** -/
lemma encodeLengthLength_eq {n : ℕ} (hn : n ≤ maxVL) : encodeLengthLength n =
    if LengthKnown n then .ok ((vlHeader n).length : ℤ)
    else .error (.overflowError "len>918644") := by
  rw [length_vlHeader hn]
  unfold maxVL at hn
  unfold encodeLengthLength
  rw [if_neg (by omega)]
  by_cases h1 : n ≤ 192
  · rw [if_pos (by omega), if_pos (.inl (by omega)), if_pos h1]
    rfl
  · rw [if_neg (by omega), if_neg h1]
    by_cases h2 : n ≤ 12480
    · rw [if_pos (by omega), if_pos (.inl h2), if_pos h2]
      rfl
    · rw [if_neg (by omega), if_neg h2]
      by_cases h3 : n = 918744
      · rw [if_pos (by omega), if_pos (.inr h3)]
        rfl
      · rw [if_neg (by omega), if_neg (by rintro (h | h) <;> omega)]

lemma lengthLengthRight_iff (length : ℤ) :
    LengthLengthRight length ↔ length ≤ 12480 ∨ length = 918744 := by
  unfold LengthLengthRight
  by_cases h : 0 ≤ length ∧ length ≤ maxVL
  · obtain ⟨n, rfl⟩ := Int.eq_ofNat_of_zero_le h.1
    have hn : n ≤ maxVL := by omega
    rw [if_pos h, encodeVL_eq hn, encodeLengthLength_eq hn]
    by_cases hc : LengthKnown n
    · rw [if_pos hc]
      unfold LengthKnown at hc
      exact iff_of_true ⟨_, rfl, rfl⟩ (by omega)
    · rw [if_neg hc]
      unfold LengthKnown at hc
      exact iff_of_false (by rintro ⟨p, -, ⟨⟩⟩) (by omega)
  · rw [if_neg h]
    unfold maxVL at h
    unfold encodeLengthLength
    by_cases h0 : length < 0
    · rw [if_pos h0]
      exact iff_of_true ⟨_, rfl⟩ (by omega)
    · rw [if_neg h0, if_neg (by omega), if_neg (by omega), if_pos (by omega)]
      exact iff_of_false (by rintro ⟨e, ⟨⟩⟩) (by omega)

lemma toInt_length {v : Bytes} (hv : v.length ≤ maxVL) : toInt v.length = v.length := by
  unfold maxVL at hv
  exact toInt_eq (by omega) (by omega)

lemma length_vlBytes {v : Bytes} (hv : v.length ≤ maxVL) :
    (vlBytes v).length = (vlHeader v.length).length + v.length ∧ (vlHeader v.length).length ≤ 3 := by
  unfold vlBytes
  rw [List.length_append]
  exact ⟨rfl, (Announces.vlHeader hv).length_le.1⟩

lemma lengthVL_eq {v : Bytes} (hv : v.length ≤ maxVL) : lengthVL v.length =
    if LengthKnown v.length then .ok ((vlBytes v).length : ℤ) else .error (.overflowError "len>918644") := by
  obtain ⟨hlen, h3⟩ := length_vlBytes hv
  have hsum : toInt ((v.length : ℤ) + (vlHeader v.length).length) = (vlBytes v).length := by
    unfold maxVL at hv
    rw [toInt_eq (by omega) (by omega), hlen]
    push_cast
    ring
  unfold lengthVL
  rw [encodeLengthLength_eq hv]
  by_cases hc : LengthKnown v.length
  · rw [if_pos hc, if_pos hc, ← hsum]
    rfl
  · rw [if_neg hc, if_neg hc]
    rfl

/-- The loop over the items, by induction on them: the sum, or the exception of the first unknown size. -/
lemma getTaggedItemsLength_eq {list : List TaggedListItem} (hlist : ∀ it ∈ list, it.2.length ≤ maxVL) {ret : ℕ}
    (hret : ret + list.length * 918748 < 2 ^ 31) : getTaggedItemsLength list ret =
      if ∀ it ∈ list, LengthKnown it.2.length then .ok ((ret + (list.flatMap itemBytes).length : ℕ) : ℤ)
      else .error (.overflowError "len>918644") := by
  induction list generalizing ret with
  | nil =>
    rw [if_pos (by simp)]
    rfl
  | cons it list ih =>
    obtain ⟨hit, hlist⟩ := List.forall_mem_cons.1 hlist
    obtain ⟨hlen, h3⟩ := length_vlBytes hit
    rw [List.length_cons] at hret
    have hstep : ret + (1 + (vlBytes it.2).length) + list.length * 918748 < 2 ^ 31 := by
      unfold maxVL at hit
      omega
    have hsum : toInt ((ret : ℤ) + (1 + it.2.length + (vlHeader it.2.length).length))
        = ((ret + (1 + (vlBytes it.2).length) : ℕ) : ℤ) := by
      rw [toInt_eq (by omega) (by omega)]
      omega
    unfold getTaggedItemsLength
    rw [toInt_length hit, encodeLengthLength_eq hit]
    by_cases hc : LengthKnown it.2.length
    · rw [if_pos hc]
      refine (congrArg (getTaggedItemsLength list) hsum).trans ?_
      have hlen' : ret + (1 + (vlBytes it.2).length) + (list.flatMap itemBytes).length
          = ret + ((it :: list).flatMap itemBytes).length := by
        rw [List.flatMap_cons, itemBytes, List.length_append, List.length_cons]
        omega
      rw [ih hlist hstep, hlen']
      simp only [List.forall_mem_cons, hc, true_and]
    · rw [if_neg hc, if_neg fun h => hc (h it (List.mem_cons_self ..))]
      rfl

lemma getTaggedListLength_eq {list : List TaggedListItem} (hn : list.length ≤ 255)
    (hlist : ∀ it ∈ list, it.2.length ≤ maxVL) : getTaggedListLength list =
      if ∀ it ∈ list, LengthKnown it.2.length then .ok ((Field.taggedList list).bytes.length : ℤ)
      else .error (.overflowError "len>918644") := by
  have hitems := @getTaggedItemsLength_eq list hlist 1 (by omega)
  have hbytes : (Field.taggedList list).bytes.length = 1 + (list.flatMap itemBytes).length := by
    rw [Field.bytes, List.length_cons, Nat.add_comm]
  unfold getTaggedListLength
  rw [toInt_eq (by omega) (by omega)]
  simp only
  rw [if_neg (by omega)]
  rcases eq_or_ne list [] with rfl | hne
  · rfl
  · have hpos : 0 < list.length := List.length_pos_iff.2 hne
    rw [if_pos (by omega), hbytes, ← hitems]
    rfl

/-- **The assertion of `addVL` is right where the prefix size is, and the old size is an `int`.** -/
lemma addVLAssertion_iff {v : Bytes} (hv : v.length ≤ maxVL) {s : Serializer} (hs : s.Fits) :
    addVLAssertion (toInt s.mData.length) v ⟨s.mData ++ vlBytes v⟩ = .ok true ↔
      LengthKnown v.length ∧ s.mData.length < 2 ^ 31 := by
  obtain ⟨hlen, h3⟩ := length_vlBytes hv
  unfold addVLAssertion
  rw [toInt_length hv, encodeLengthLength_eq hv]
  by_cases hc : LengthKnown v.length
  · have hwrap := isInt_toInt s.mData.length
    have hold : toInt s.mData.length = s.mData.length ↔ s.mData.length < 2 ^ 31 := by
      unfold IsInt at hwrap
      exact ⟨fun h => by omega, fun h => toInt_eq (by omega) (by omega)⟩
    have hsize : ((s.mData ++ vlBytes v).length : ℤ)
        = toSizeT (toInt s.mData.length + v.length + (vlHeader v.length).length) ↔
          toInt s.mData.length = s.mData.length := by
      unfold IsInt at hwrap
      unfold Serializer.Fits at hs
      unfold maxVL at hv
      unfold toSizeT
      rw [List.length_append]
      omega
    rw [if_pos hc, and_iff_right hc, ← hold, ← hsize]
    exact (Except.ok.injEq ..).to_iff.trans decide_eq_true_iff
  · rw [if_neg hc]
    exact iff_of_false (by rintro ⟨⟩) fun h => hc h.1

/-- **The lengths worked out in advance are those of the encoder exactly up to 12480 bytes and at
918744**, a payload at a time; the assertion also needs a buffer whose size is an `int`. -/
theorem lengths_right (length : ℤ) (v : Bytes) (list : List TaggedListItem) (s s' : Serializer) (ret : ℤ) :
    (LengthLengthRight length ↔ length ≤ 12480 ∨ length = 918744) ∧
    (v.length ≤ maxVL →
      (lengthVL v.length = .ok (((addVL v).run ⟨[]⟩).2.mData.length : ℤ) ↔ LengthKnown v.length)) ∧
    (list.length ≤ 255 → (∀ it ∈ list, it.2.length ≤ maxVL) →
      (getTaggedListLength list = .ok (((addTaggedList list).run ⟨[]⟩).2.mData.length : ℤ) ↔
        ∀ it ∈ list, LengthKnown it.2.length)) ∧
    (v.length ≤ maxVL → s.Fits → (addVL v).run s = (.ok ret, s') →
      (addVLAssertion ret v s' = .ok true ↔ LengthKnown v.length ∧ s.mData.length < 2 ^ 31)) := by
  refine ⟨lengthLengthRight_iff length, ?_, ?_, ?_⟩
  · intro hv
    rw [addVL_run hv, lengthVL_eq hv]
    by_cases hc : LengthKnown v.length
    · rw [if_pos hc, List.nil_append]
      exact iff_of_true rfl hc
    · rw [if_neg hc]
      exact iff_of_false (by rintro ⟨⟩) hc
  · intro hn hlist
    rw [addTaggedList_run hn hlist, getTaggedListLength_eq hn hlist]
    by_cases hc : ∀ it ∈ list, LengthKnown it.2.length
    · rw [if_pos hc, List.nil_append]
      exact iff_of_true rfl hc
    · rw [if_neg hc]
      exact iff_of_false (by rintro ⟨⟩) hc
  · intro hv hs hrun
    rw [addVL_run hv] at hrun
    obtain ⟨hret, rfl⟩ := Prod.mk.inj hrun
    obtain rfl := Except.ok.inj hret
    exact addVLAssertion_iff hv hs

/-- A payload of 13000 bytes has a prefix of three bytes and no prefix length. -/
theorem lengthLength_gap : ¬ LengthLengthRight 13000 := by
  rw [lengthLengthRight_iff]
  decide

end Newcoin
