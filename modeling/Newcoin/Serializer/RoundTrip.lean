import Newcoin.Serializer.Prefix

/-!
# What is written is read back

`Field` is one typed value of a record.  `Field.write_run`: writing a field appends its encoding
`Field.bytes`; `Field.read_run`: reading a field of that kind where the buffer holds the encoding gives
the value and moves on by exactly the encoding.  `serializer_round_trip` puts a whole record together.
-/

namespace Newcoin

open Lib Serializer

/-! ### Records -/

/-- A typed value. -/
inductive Field
  | u8 (x : UInt8)
  | u16 (x : UInt16)
  | u32 (x : UInt32)
  | u64 (x : UInt64)
  | u128 (x : BaseUInt 128)
  | u160 (x : BaseUInt 160)
  | u256 (x : BaseUInt 256)
  | vl (v : Bytes)
  | taggedList (list : List TaggedListItem)

/-- The type of a value. -/
inductive Kind
  | u8 | u16 | u32 | u64 | u128 | u160 | u256 | vl | taggedList

namespace Field

def kind : Field → Kind
  | u8 _ => .u8
  | u16 _ => .u16
  | u32 _ => .u32
  | u64 _ => .u64
  | u128 _ => .u128
  | u160 _ => .u160
  | u256 _ => .u256
  | vl _ => .vl
  | taggedList _ => .taggedList

/-- The values the format has room for. -/
def Encodable : Field → Prop
  | vl v => v.length ≤ maxVL
  | taggedList list =>
    list.length ≤ 255 ∧ ∀ it ∈ list, 0 ≤ it.1 ∧ it.1 ≤ 255 ∧ it.2.length ≤ maxVL
  | _ => True

instance : DecidablePred Encodable
  | vl v => inferInstanceAs (Decidable (v.length ≤ maxVL))
  | taggedList list => inferInstanceAs (Decidable (list.length ≤ 255 ∧
      ∀ it ∈ list, 0 ≤ it.1 ∧ it.1 ≤ 255 ∧ it.2.length ≤ maxVL))
  | u8 _ | u16 _ | u32 _ | u64 _ | u128 _ | u160 _ | u256 _ => isTrue trivial

def write : Field → Write ℤ
  | u8 x => add8 x
  | u16 x => add16 x
  | u32 x => add32 x
  | u64 x => add64 x
  | u128 x => add128 x
  | u160 x => add160 x
  | u256 x => add256 x
  | vl v => addVL v
  | taggedList list => addTaggedList list

end Field

/-- The getter of the iterator for a type. -/
def Kind.read : Kind → Iter Field
  | u8 => Field.u8 <$> SerializerIterator.get8
  | u16 => Field.u16 <$> SerializerIterator.get16
  | u32 => Field.u32 <$> SerializerIterator.get32
  | u64 => Field.u64 <$> SerializerIterator.get64
  | u128 => Field.u128 <$> SerializerIterator.get128
  | u160 => Field.u160 <$> SerializerIterator.get160
  | u256 => Field.u256 <$> SerializerIterator.get256
  | vl => Field.vl <$> SerializerIterator.getVL
  | taggedList => Field.taggedList <$> SerializerIterator.getTaggedList

/-- Write the fields of a record in order. -/
def writeAll : List Field → Write Unit
  | [] => return ()
  | f :: fs => do
    let _ ← f.write
    writeAll fs

/-- Read values of the given types in order. -/
def readAll : List Kind → Iter (List Field)
  | [] => return []
  | k :: ks => do
    let f ← k.read
    let fs ← readAll ks
    return f :: fs

/-! ### Encodings -/

def vlBytes (v : Bytes) : Bytes := vlHeader v.length ++ v

def itemBytes (it : TaggedListItem) : Bytes := toUChar it.1 :: vlBytes it.2

def Field.bytes : Field → Bytes
  | u8 x => [x]
  | u16 x => shiftOut 2 x.toBitVec
  | u32 x => shiftOut 4 x.toBitVec
  | u64 x => shiftOut 8 x.toBitVec
  | u128 x => x.bytes
  | u160 x => x.bytes
  | u256 x => x.bytes
  | vl v => vlBytes v
  | taggedList list => UInt8.ofNat list.length :: list.flatMap itemBytes

/-! ### Writers -/

lemma addRaw_run (bytes : Bytes) (s : Serializer) :
    (addRaw bytes).run s = (.ok (toInt s.mData.length), ⟨s.mData ++ bytes⟩) := rfl

lemma write_bind {α β : Type} {x : Write α} {f : α → Write β} {s s' : Serializer} {a : α}
    (h : x.run s = (.ok a, s')) : (x >>= f).run s = (f a).run s' := by
  show (x >>= f) s = f a s'
  have h' : x s = (.ok a, s') := h
  simp only [bind, ExceptT.bind, ExceptT.mk, StateT.bind, ExceptT.bindCont, h']

lemma addVL_run {v : Bytes} (hv : v.length ≤ maxVL) (s : Serializer) :
    (addVL v).run s = (.ok (toInt s.mData.length), ⟨s.mData ++ vlBytes v⟩) := by
  have hlen : toInt v.length = v.length := by
    unfold maxVL at hv
    exact toInt_eq (by omega) (by omega)
  unfold addVL
  rw [hlen, encodeVL_eq hv]
  refine (write_bind (show (liftM (Except.ok (vlHeader v.length)) : Write Bytes).run s
    = (.ok (vlHeader v.length), s) from rfl)).trans ?_
  refine (write_bind (addRaw_run _ _)).trans ((write_bind (addRaw_run _ _)).trans ?_)
  simp only [vlBytes, ← List.append_assoc]
  rfl

lemma addTaggedItems_run {list : List TaggedListItem}
    (hlist : ∀ it ∈ list, it.2.length ≤ maxVL) (s : Serializer) :
    (addTaggedItems list).run s = (.ok (), ⟨s.mData ++ list.flatMap itemBytes⟩) := by
  induction list generalizing s with
  | nil =>
    rw [List.flatMap_nil, List.append_nil]
    rfl
  | cons it list ih =>
    unfold addTaggedItems
    refine (write_bind (addRaw_run _ _)).trans ?_
    refine (write_bind (addVL_run (hlist it (List.mem_cons_self ..)) _)).trans ?_
    rw [ih fun it' h => hlist it' (List.mem_cons_of_mem _ h)]
    simp [itemBytes]

lemma addTaggedList_run {list : List TaggedListItem} (hn : list.length ≤ 255)
    (hlist : ∀ it ∈ list, it.2.length ≤ maxVL) (s : Serializer) :
    (addTaggedList list).run s = (.ok (toInt s.mData.length),
      ⟨s.mData ++ UInt8.ofNat list.length :: list.flatMap itemBytes⟩) := by
  have hlen : toInt list.length = list.length := toInt_eq (by omega) (by omega)
  unfold addTaggedList
  simp only [hlen]
  rw [if_neg (by omega)]
  refine (write_bind (addRaw_run _ _)).trans ?_
  rcases eq_or_ne list [] with rfl | hne
  · rfl
  · rw [if_pos (by simpa using hne)]
    refine (write_bind (addTaggedItems_run hlist _)).trans ?_
    simp only [toUChar_natCast, List.append_assoc, List.singleton_append]
    rfl

/-- **Writing a field appends its encoding.** -/
theorem Field.write_run {f : Field} (hf : f.Encodable) (s : Serializer) :
    f.write.run s = (.ok (toInt s.mData.length), ⟨s.mData ++ f.bytes⟩) := by
  cases f with
  | vl v => exact addVL_run hf s
  | taggedList list => exact addTaggedList_run hf.1 (fun it h => (hf.2 it h).2.2) s
  | _ => rfl

theorem writeAll_run {fs : List Field} (hfs : ∀ f ∈ fs, f.Encodable) (s : Serializer) :
    (writeAll fs).run s = (.ok (), ⟨s.mData ++ fs.flatMap Field.bytes⟩) := by
  induction fs generalizing s with
  | nil =>
    rw [List.flatMap_nil, List.append_nil]
    rfl
  | cons f fs ih =>
    unfold writeAll
    refine (write_bind (Field.write_run (hfs f (List.mem_cons_self ..)) s)).trans ?_
    rw [ih fun f' h => hfs f' (List.mem_cons_of_mem _ h)]
    simp

/-! ### Readers -/

section Readers

variable {s : Serializer} {pos : ℕ} {bs : Bytes}

/-- Positions of a buffer this short are all `int`s. -/
def Serializer.Short (s : Serializer) : Prop := s.mData.length < 2 ^ 31

lemma getRaw_window (hs : s.Short) (h : Window s.mData pos bs) :
    s.getRaw pos bs.length = pure bs :=
  getRaw_at h (h.le.trans_lt hs)

lemma getFixed_window (hs : s.Short) (h : Window s.mData pos bs) {width : ℤ}
    (hw : width = bs.length) : s.getFixed width pos = pure bs := by
  subst hw
  exact getRaw_window hs h

lemma get8_window {b : UInt8} (hs : s.Short) (h : Window s.mData pos [b]) :
    s.get8 pos = pure (b.toNat : ℤ) := by
  have hle := h.le
  unfold Serializer.Short at hs
  simp only [List.length_singleton] at hle
  exact get8_at (by omega) h

lemma toInt_pos {n : ℕ} (hs : s.Short) (hn : n ≤ s.mData.length) : toInt n = n := by
  unfold Serializer.Short at hs
  exact toInt_eq (by omega) (by omega)

lemma toInt_add {a b : ℕ} (hs : s.Short) (h : a + b ≤ s.mData.length) :
    toInt ((a : ℤ) + b) = ((a + b : ℕ) : ℤ) := by
  rw [← Nat.cast_add]
  exact toInt_pos hs h

lemma toInt_succ {a : ℕ} (hs : s.Short) (h : a < s.mData.length) :
    toInt ((a : ℤ) + 1) = ((a + 1 : ℕ) : ℤ) :=
  toInt_add hs h

lemma getVL_window (hs : s.Short) {v : Bytes} (hv : v.length ≤ maxVL)
    (h : Window s.mData pos (vlBytes v)) : s.getVL pos = pure (v, ((vlBytes v).length : ℤ)) :=
  getVL_at (Announces.vlHeader hv) h (h.le.trans_lt hs)

lemma getTaggedItems_window (hs : s.Short) {list : List TaggedListItem}
    (hlist : ∀ it ∈ list, 0 ≤ it.1 ∧ it.1 ≤ 255 ∧ it.2.length ≤ maxVL)
    (h : Window s.mData pos (list.flatMap itemBytes)) :
    s.getTaggedItems list.length pos
      = pure (list, ((pos + (list.flatMap itemBytes).length : ℕ) : ℤ)) := by
  induction list generalizing pos with
  | nil => rfl
  | cons it list ih =>
    obtain ⟨tag, data⟩ := it
    obtain ⟨ht0, ht1, hd⟩ := hlist _ (List.mem_cons_self ..)
    have hle := h.le
    rw [List.flatMap_cons, itemBytes, List.cons_append] at h hle
    obtain ⟨w1, w2⟩ := window_cons.1 h
    obtain ⟨w2, w3⟩ := window_append.1 w2
    simp only [List.length_cons, List.length_append] at hle
    have hp1 := toInt_succ hs (a := pos) (by omega)
    have hp2 := toInt_add hs (a := pos + 1) (b := (vlBytes data).length) (by omega)
    rw [List.length_cons, getTaggedItems, get8_window hs w1, pure_bind]
    simp only [hp1, getVL_window hs hd w2, pure_bind, hp2]
    rw [ih (fun it' h' => hlist it' (List.mem_cons_of_mem _ h')) w3]
    have hpos : pos + ((tag, data) :: list |>.flatMap itemBytes).length
        = pos + 1 + (vlBytes data).length + (list.flatMap itemBytes).length := by
      simp only [List.flatMap_cons, itemBytes, List.length_append, List.length_cons]
      omega
    simp only [pure_bind, toNat_toUChar ht0 (show tag < 256 by omega), hpos]

lemma getTaggedList_window (hs : s.Short) {list : List TaggedListItem} (hn : list.length ≤ 255)
    (hlist : ∀ it ∈ list, 0 ≤ it.1 ∧ it.1 ≤ 255 ∧ it.2.length ≤ maxVL)
    (h : Window s.mData pos (Field.taggedList list).bytes) :
    s.getTaggedList pos = pure (list, ((Field.taggedList list).bytes.length : ℤ)) := by
  have hle := h.le
  simp only [Field.bytes] at h hle
  obtain ⟨w1, w2⟩ := window_cons.1 h
  simp only [List.length_cons] at hle
  have hp1 := toInt_succ hs (a := pos) (by omega)
  have hcount : (((UInt8.ofNat list.length).toNat : ℕ) : ℤ).toNat = list.length := by
    rw [UInt8.toNat_ofNat']
    omega
  unfold getTaggedList
  rw [get8_window hs w1, pure_bind, hp1, hcount, getTaggedItems_window hs hlist w2, pure_bind]
  have hlen : toInt (((pos + 1 + (list.flatMap itemBytes).length : ℕ) : ℤ) - pos)
      = (((Field.taggedList list).bytes.length : ℕ) : ℤ) := by
    have hsub : ((pos + 1 + (list.flatMap itemBytes).length : ℕ) : ℤ) - pos
        = (((Field.taggedList list).bytes.length : ℕ) : ℤ) := by
      simp only [Field.bytes, List.length_cons]
      omega
    rw [hsub]
    exact toInt_pos hs (by simp only [Field.bytes, List.length_cons]; omega)
  simp only [hlen]

lemma get16_window {x : UInt16} (hs : s.Short) (h : Window s.mData pos (shiftOut 2 x.toBitVec)) :
    s.get16 pos = pure x := by
  unfold get16
  rw [getFixed_window hs h (by simp), map_pure, shiftIn_shiftOut (n := 2) x.toBitVec rfl]

lemma get32_window {x : UInt32} (hs : s.Short) (h : Window s.mData pos (shiftOut 4 x.toBitVec)) :
    s.get32 pos = pure x := by
  unfold get32
  rw [getFixed_window hs h (by simp), map_pure, shiftIn_shiftOut (n := 4) x.toBitVec rfl]

lemma get64_window {x : UInt64} (hs : s.Short) (h : Window s.mData pos (shiftOut 8 x.toBitVec)) :
    s.get64 pos = pure x := by
  unfold get64
  rw [getFixed_window hs h (by simp), map_pure, shiftIn_shiftOut (n := 8) x.toBitVec rfl]

/-- The readers of `base_uint`s of any width. -/
lemma getBase_window {BITS : ℕ} {x : BaseUInt BITS} (hs : s.Short) (h : Window s.mData pos x.bytes)
    {width : ℤ} (hw : width = (BITS / 8 : ℕ)) :
    BaseUInt.ofBytes BITS <$> s.getFixed width pos = pure x := by
  rw [getFixed_window hs h (by rw [hw, x.size]), map_pure, BaseUInt.ofBytes_bytes]

end Readers

/-! ### The iterator -/

lemma next_run {α : Type} {what : String} {read : Serializer → ℤ → Read α} {width : α → ℤ}
    {s : Serializer} {pos n : ℕ} {val : α} (h : read s pos = pure val) (hw : width val = n)
    (hs : s.Short) (hle : pos + n ≤ s.mData.length) :
    (SerializerIterator.next what read width).run ⟨s, pos⟩
      = (.ok val, ⟨s, ((pos + n : ℕ) : ℤ)⟩) := by
  have hstep : (SerializerIterator.next what read width).run ⟨s, pos⟩
      = (.ok val, ⟨s, toInt (pos + width val)⟩) := by
    unfold SerializerIterator.next
    simp only [ExceptT.run]
    rw [h]
    rfl
  rw [hstep, hw, toInt_add hs hle]

lemma iter_map {α β : Type} {x : Iter α} {f : α → β} {it it' : SerializerIterator} {a : α}
    (h : x.run it = (.ok a, it')) : (f <$> x).run it = (.ok (f a), it') := by
  show (f <$> x) it = _
  have h' : x it = (.ok a, it') := h
  simp only [Functor.map, ExceptT.map, ExceptT.mk, bind, StateT.bind, h']
  rfl

lemma iter_bind {α β : Type} {x : Iter α} {f : α → Iter β} {it it' : SerializerIterator} {a : α}
    (h : x.run it = (.ok a, it')) : (x >>= f).run it = (f a).run it' := by
  show (x >>= f) it = f a it'
  have h' : x it = (.ok a, it') := h
  simp only [bind, ExceptT.bind, ExceptT.mk, StateT.bind, ExceptT.bindCont, h']

/-- **Reading a field where the buffer holds its encoding gives the field back and moves on by the
encoding.** -/
theorem Field.read_run {f : Field} (hf : f.Encodable) {s : Serializer} {pos : ℕ} (hs : s.Short)
    (h : Window s.mData pos f.bytes) :
    f.kind.read.run ⟨s, pos⟩ = (.ok f, ⟨s, ((pos + f.bytes.length : ℕ) : ℤ)⟩) := by
  have hle := h.le
  cases f with
  | u8 x =>
    refine (iter_map (iter_map (next_run (get8_window hs h) rfl hs hle))).trans ?_
    rw [toUChar_natCast, UInt8.ofNat_toNat]
  | u16 x =>
    rw [Field.bytes, length_shiftOut] at hle ⊢
    exact iter_map (next_run (get16_window hs h) rfl hs hle)
  | u32 x =>
    rw [Field.bytes, length_shiftOut] at hle ⊢
    exact iter_map (next_run (get32_window hs h) rfl hs hle)
  | u64 x =>
    rw [Field.bytes, length_shiftOut] at hle ⊢
    exact iter_map (next_run (get64_window hs h) rfl hs hle)
  | u128 x =>
    rw [Field.bytes, x.size] at hle ⊢
    exact iter_map (next_run (getBase_window hs h rfl) rfl hs hle)
  | u160 x =>
    rw [Field.bytes, x.size] at hle ⊢
    exact iter_map (next_run (getBase_window hs h rfl) rfl hs hle)
  | u256 x =>
    rw [Field.bytes, x.size] at hle ⊢
    exact iter_map (next_run (getBase_window hs h rfl) rfl hs hle)
  | vl v => exact iter_map (iter_map (next_run (getVL_window hs hf h) rfl hs hle))
  | taggedList list =>
    exact iter_map (iter_map (next_run (getTaggedList_window hs hf.1 hf.2 h) rfl hs hle))

theorem readAll_run {fs : List Field} (hfs : ∀ f ∈ fs, f.Encodable) {s : Serializer} {pos : ℕ}
    (hs : s.Short) (h : Window s.mData pos (fs.flatMap Field.bytes)) :
    (readAll (fs.map Field.kind)).run ⟨s, pos⟩
      = (.ok fs, ⟨s, ((pos + (fs.flatMap Field.bytes).length : ℕ) : ℤ)⟩) := by
  induction fs generalizing pos with
  | nil => rfl
  | cons f fs ih =>
    rw [List.flatMap_cons] at h
    obtain ⟨w1, w2⟩ := window_append.1 h
    rw [List.map_cons, readAll]
    refine (iter_bind (Field.read_run (hfs f (List.mem_cons_self ..)) hs w1)).trans ?_
    refine (iter_bind (ih (fun f' h' => hfs f' (List.mem_cons_of_mem _ h')) w2)).trans ?_
    rw [List.flatMap_cons, List.length_append, Nat.add_assoc]
    rfl

/-- **A record that fits is read back as it was written, to the last byte.** -/
theorem serializer_round_trip (fs : List Field) (hfs : ∀ f ∈ fs, f.Encodable)
    (hsize : ((writeAll fs).run ⟨[]⟩).2.mData.length < 2 ^ 31) :
    ((writeAll fs).run ⟨[]⟩).1 = .ok () ∧
    ∃ it, (readAll (fs.map Field.kind)).run (.new ((writeAll fs).run ⟨[]⟩).2) = (.ok fs, it) ∧
      it.getBytesLeft = 0 := by
  have hw := writeAll_run hfs ⟨[]⟩
  rw [List.nil_append] at hw
  rw [hw] at hsize ⊢
  have hs : Serializer.Short ⟨fs.flatMap Field.bytes⟩ := hsize
  have hr := readAll_run hfs hs (Window.self _)
  refine ⟨rfl, _, hr, ?_⟩
  simp [SerializerIterator.getBytesLeft]

/-- A record of a number, a string and a list. -/
theorem serializer_round_trip_record :
    let fs := [Field.u16 0x1234, .vl [7, 7, 7], .taggedList [(255, [1, 2]), (0, [])]]
    ((writeAll fs).run ⟨[]⟩).1 = .ok () ∧
    ∃ it, (readAll (fs.map Field.kind)).run (.new ((writeAll fs).run ⟨[]⟩).2) = (.ok fs, it) ∧
      it.getBytesLeft = 0 :=
  serializer_round_trip _ (by decide) (by decide)

end Newcoin
