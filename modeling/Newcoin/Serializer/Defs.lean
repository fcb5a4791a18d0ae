import Newcoin.BaseUInt
import Newcoin.Machine
import Newcoin.Lib.BigEndian

/-!
# `Serializer` and `SerializerIterator`

Writers are actions on the serializer that may throw (`Write`), readers look at a position of it
(`Read`): `none` is the source's `return false`.  Asserts do nothing.
-/

namespace Newcoin

open Lib

/-- `Serializer`: a byte buffer. -/
structure Serializer where
  mData : Bytes
  deriving DecidableEq, Repr

/-- A tag and its payload. -/
abbrev TaggedListItem := ℤ × Bytes

/-- A call on a serializer that may throw; what it wrote before the exception stays. -/
abbrev Write (α : Type) := ExceptT Fault (StateM Serializer) α

/-- A call that reports success or failure, and may throw. -/
abbrev Read (α : Type) := OptionT (Except Fault) α

namespace Serializer

/-! ### Length prefixes -/

/-- `encodeVL`.  The cast to `unsigned char` makes `& 0xff` superfluous. -/
def encodeVL (length : ℤ) : Except Fault Bytes :=
  if length ≤ 192 then
    .ok [toUChar length]
  else if length ≤ 12480 then
    let length := length - 193
    .ok [toUChar (193 + (toUChar (length >>> (8 : ℕ))).toNat), toUChar length]
  else if length ≤ 918744 then
    let length := length - 12481
    .ok [toUChar (241 + (toUChar (length >>> (16 : ℕ))).toNat), toUChar (length >>> (8 : ℕ)), toUChar length]
  else .error (.overflowError "lenlen")

/-- `encodeLengthLength`, with the last comparison as the source has it. -/
def encodeLengthLength (length : ℤ) : Except Fault ℤ :=
  if length < 0 then .error (.overflowError "len<0")
  else if length ≤ 192 then .ok 1
  else if length ≤ 12480 then .ok 2
  else if length ≥ 918744 then .ok 3
  else .error (.overflowError "len>918644")

def lengthVL (length : ℤ) : Except Fault ℤ := do
  return toInt (length + (← encodeLengthLength length))

def decodeLengthLength (b1 : ℤ) : Except Fault ℤ :=
  if b1 < 0 then .error (.overflowError "b1<0")
  else if b1 ≤ 192 then .ok 1
  else if b1 ≤ 240 then .ok 2
  else if b1 ≤ 254 then .ok 3
  else .error (.overflowError "b1>254")

/-- `decodeVLLength(int b1)`. -/
def decodeVLLength₁ (b1 : ℤ) : Except Fault ℤ :=
  if b1 < 0 then .error (.overflowError "b1<0")
  else if b1 > 254 then .error (.overflowError "b1>254")
  else .ok b1

/-- `decodeVLLength(int b1, int b2)`. -/
def decodeVLLength₂ (b1 b2 : ℤ) : Except Fault ℤ :=
  if b1 < 193 then .error (.overflowError "b1<193")
  else if b1 > 240 then .error (.overflowError "b1>240")
  else .ok (193 + (b1 - 193) * 256 + b2)

/-- `decodeVLLength(int b1, int b2, int b3)`. -/
def decodeVLLength₃ (b1 b2 b3 : ℤ) : Except Fault ℤ :=
  if b1 < 241 then .error (.overflowError "b1<241")
  else if b1 > 254 then .error (.overflowError "b1>254")
  else .ok (12481 + (b1 - 241) * 65536 + b2 * 256 + b3)

/-! ### Assemble functions -/

/-- Bytes put at the end of the buffer; the result is the old size. -/
def addRaw (bytes : Bytes) : Write ℤ := fun s =>
  (.ok (toInt s.mData.length), ⟨s.mData ++ bytes⟩)

def add8 (byte : UInt8) : Write ℤ := addRaw [byte]

def add16 (i : UInt16) : Write ℤ := addRaw (shiftOut 2 i.toBitVec)

def add32 (i : UInt32) : Write ℤ := addRaw (shiftOut 4 i.toBitVec)

def add64 (i : UInt64) : Write ℤ := addRaw (shiftOut 8 i.toBitVec)

def add128 (i : BaseUInt 128) : Write ℤ := addRaw i.bytes

def add160 (i : BaseUInt 160) : Write ℤ := addRaw i.bytes

def add256 (i : BaseUInt 256) : Write ℤ := addRaw i.bytes

/-- `addVL(const std::vector<unsigned char>&)`. -/
def addVL (vector : Bytes) : Write ℤ := do
  let ret ← addRaw (← (encodeVL (toInt vector.length) : Except Fault Bytes))
  let _ ← addRaw vector
  return ret

/-- The condition that `addVL(vector)` asserts before it returns `ret`; working it out may throw. -/
def addVLAssertion (ret : ℤ) (vector : Bytes) (s : Serializer) : Except Fault Bool := do
  let lenLen ← encodeLengthLength (toInt vector.length)
  return s.mData.length = toSizeT (ret + vector.length + lenLen)

/-- `addRaw(const void *ptr, int len)`; `ptr` points to `bytes`. -/
def addRawPtr (bytes : Bytes) (len : ℤ) : Write ℤ :=
  if 0 ≤ len ∧ len ≤ bytes.length then addRaw (bytes.take len.toNat)
  else throwThe Fault .outOfBounds

/-- `addVL(const void *ptr, int len)`. -/
def addVLPtr (bytes : Bytes) (len : ℤ) : Write ℤ := do
  let ret ← addRaw (← (encodeVL len : Except Fault Bytes))
  if len ≠ 0 then
    let _ ← addRawPtr bytes len
  return ret

/-- The items of a tagged list, one after the other. -/
def addTaggedItems : List TaggedListItem → Write Unit
  | [] => return ()
  | it :: list => do
    let _ ← add8 (toUChar it.1)
    let _ ← addVL it.2
    addTaggedItems list

def addTaggedList (list : List TaggedListItem) : Write ℤ := do
  let size := toInt list.length
  if size > 255 then return -1
  let ret ← add8 (toUChar size)
  if size ≠ 0 then addTaggedItems list
  return ret

/-- The loop of `getTaggedListLength`. -/
def getTaggedItemsLength : List TaggedListItem → ℤ → Except Fault ℤ
  | [], ret => return ret
  | it :: list, ret => do
    let lenLen ← encodeLengthLength (toInt it.2.length)
    getTaggedItemsLength list (toInt (ret + (1 + it.2.length + lenLen)))

def getTaggedListLength (list : List TaggedListItem) : Except Fault ℤ :=
  let size := toInt list.length
  if size > 255 then .ok (-1)
  else if size ≠ 0 then getTaggedItemsLength list 1
  else .ok 1

/-! ### Disassemble functions -/

/-- `n > mData.size()`, an `int` against a `size_t`. -/
def exceeds (s : Serializer) (n : ℤ) : Prop := toSizeT n > s.mData.length

instance (s : Serializer) (n : ℤ) : Decidable (s.exceeds n) := by unfold exceeds; infer_instance

/-- The bytes `mData[offset], …, mData[offset + length - 1]`. -/
def bytesAt (s : Serializer) (offset length : ℤ) : Read Bytes :=
  if 0 ≤ offset ∧ 0 ≤ length ∧ offset + length ≤ s.mData.length then
    return (s.mData.drop offset.toNat).take length.toNat
  else throwThe Fault .outOfBounds

/-- `get8(int&, int)`. -/
def get8 (s : Serializer) (offset : ℤ) : Read ℤ := do
  if toSizeT offset ≥ s.mData.length then failure
  let bs ← s.bytesAt offset 1
  return (beNat bs : ℤ)

/-- The readers of a fixed number of bytes: the check, then the bytes. -/
def getFixed (s : Serializer) (width : ℤ) (offset : ℤ) : Read Bytes := do
  if s.exceeds (toInt (offset + width)) then failure
  s.bytesAt offset width

def get16 (s : Serializer) (offset : ℤ) : Read UInt16 :=
  (fun bs => UInt16.ofBitVec (shiftIn 16 bs)) <$> s.getFixed 2 offset

def get32 (s : Serializer) (offset : ℤ) : Read UInt32 :=
  (fun bs => UInt32.ofBitVec (shiftIn 32 bs)) <$> s.getFixed 4 offset

def get64 (s : Serializer) (offset : ℤ) : Read UInt64 :=
  (fun bs => UInt64.ofBitVec (shiftIn 64 bs)) <$> s.getFixed 8 offset

def get128 (s : Serializer) (offset : ℤ) : Read (BaseUInt 128) :=
  BaseUInt.ofBytes 128 <$> s.getFixed (128 / 8) offset

def get160 (s : Serializer) (offset : ℤ) : Read (BaseUInt 160) :=
  BaseUInt.ofBytes 160 <$> s.getFixed (160 / 8) offset

def get256 (s : Serializer) (offset : ℤ) : Read (BaseUInt 256) :=
  BaseUInt.ofBytes 256 <$> s.getFixed (256 / 8) offset

/-- `getRaw(std::vector<unsigned char>&, int, int)`. -/
def getRaw (s : Serializer) (offset length : ℤ) : Read Bytes := do
  if s.exceeds (toInt (offset + length)) then failure
  s.bytesAt offset length

/-- `getRaw(int, int)`: nothing where the other form fails. -/
def getRaw₂ (s : Serializer) (offset length : ℤ) : Except Fault Bytes :=
  if s.exceeds (toInt (offset + length)) then .ok []
  else (·.getD []) <$> (s.bytesAt offset length).run

/-- `try { … } catch (...) { return false; }`. -/
def caught {α : Type} (x : Read α) : Read α :=
  match x.run with
  | .error .outOfBounds => OptionT.mk (.error .outOfBounds)
  | .error _ => OptionT.mk (.ok none)
  | .ok o => OptionT.mk (.ok o)

/-- The length prefix at `offset`, as `getVL` and `getVLLength` read it: its size, the length it
announces and the offset behind it.  `decodeLengthLength` is called outside the `try`. -/
def vlPrefix (s : Serializer) (offset : ℤ) : Read (ℤ × ℤ × ℤ) := do
  let b1 ← s.get8 offset
  let offset := toInt (offset + 1)
  let lenLen ← (decodeLengthLength b1 : Except Fault ℤ)
  caught do
    if lenLen = 1 then
      let datLen ← (decodeVLLength₁ b1 : Except Fault ℤ)
      return (lenLen, datLen, offset)
    else if lenLen = 2 then
      let b2 ← s.get8 offset
      let datLen ← (decodeVLLength₂ b1 b2 : Except Fault ℤ)
      return (lenLen, datLen, toInt (offset + 1))
    else if lenLen = 3 then
      let b2 ← s.get8 offset
      let b3 ← s.get8 (toInt (offset + 1))
      let datLen ← (decodeVLLength₃ b1 b2 b3 : Except Fault ℤ)
      return (lenLen, datLen, toInt (toInt (offset + 1) + 1))
    else failure

/-- `getVL`: the payload, and the length with its prefix. -/
def getVL (s : Serializer) (offset : ℤ) : Read (Bytes × ℤ) := do
  let (lenLen, datLen, offset) ← s.vlPrefix offset
  let objectVL ← s.getRaw offset datLen
  return (objectVL, toInt (lenLen + datLen))

def getVLLength (s : Serializer) (offset : ℤ) : Read ℤ := do
  let (_, length, _) ← s.vlPrefix offset
  return length

/-- The loop of `getTaggedList`: `n` more items from `offset`, and the offset behind them. -/
def getTaggedItems (s : Serializer) : ℕ → ℤ → Read (List TaggedListItem × ℤ)
  | 0, offset => return ([], offset)
  | n + 1, offset => do
    let tag ← s.get8 offset
    let offset := toInt (offset + 1)
    let (data, len) ← s.getVL offset
    let (list, offset) ← s.getTaggedItems n (toInt (offset + len))
    return ((tag, data) :: list, offset)

/-- `getTaggedList`: the items, and the number of bytes they take. -/
def getTaggedList (s : Serializer) (startOffset : ℤ) : Read (List TaggedListItem × ℤ) := do
  let numElem ← s.get8 startOffset
  let (list, offset) ← s.getTaggedItems numElem.toNat (toInt (startOffset + 1))
  return (list, toInt (offset - startOffset))

end Serializer

/-! ### The iterator -/

/-- `SerializerIterator`. -/
structure SerializerIterator where
  mSerializer : Serializer
  mPos : ℤ

/-- A call on an iterator; an exception leaves it as it was at that moment. -/
abbrev Iter (α : Type) := ExceptT Fault (StateM SerializerIterator) α

namespace SerializerIterator

/-- `SerializerIterator(s)`. -/
def new (s : Serializer) : SerializerIterator := ⟨s, 0⟩

def getBytesLeft (it : SerializerIterator) : ℤ := toInt (it.mSerializer.mData.length - it.mPos)

/-- The getters: throw `what` if the read fails, else move on by what was read. -/
def next {α : Type} (what : String) (read : Serializer → ℤ → Read α) (width : α → ℤ) : Iter α :=
  fun it =>
    match (read it.mSerializer it.mPos).run with
    | .error e => (.error e, it)
    | .ok none => (.error (.runtimeError what), it)
    | .ok (some val) => (.ok val, { it with mPos := toInt (it.mPos + width val) })

def get8 : Iter UInt8 :=
  toUChar <$> next "invalid serializer get8" Serializer.get8 fun _ => 1

def get16 : Iter UInt16 := next "invalid serializer get16" Serializer.get16 fun _ => 16 / 8

def get32 : Iter UInt32 := next "invalid serializer get32" Serializer.get32 fun _ => 32 / 8

def get64 : Iter UInt64 := next "invalid serializer get64" Serializer.get64 fun _ => 64 / 8

def get128 : Iter (BaseUInt 128) := next "invalid serializer get128" Serializer.get128 fun _ => 128 / 8

def get160 : Iter (BaseUInt 160) := next "invalid serializer get160" Serializer.get160 fun _ => 160 / 8

def get256 : Iter (BaseUInt 256) := next "invalid serializer get256" Serializer.get256 fun _ => 256 / 8

def getVL : Iter Bytes := Prod.fst <$> next "invalid serializer getVL" Serializer.getVL Prod.snd

def getTaggedList : Iter (List TaggedListItem) :=
  Prod.fst <$> next "invalid serializer getTL" Serializer.getTaggedList Prod.snd

/-- `getRaw(int)`, which moves on before it looks. -/
def getRaw (iLength : ℤ) : Iter Bytes := fun it =>
  let iPos := it.mPos
  let it := { it with mPos := toInt (it.mPos + iLength) }
  (it.mSerializer.getRaw₂ iPos iLength, it)

end SerializerIterator

end Newcoin
