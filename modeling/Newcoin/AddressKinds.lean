import Newcoin.AddressText

/-!
# Which texts are read as which addresses

A text is read as an address of a version exactly if it is, but for white space, the encoding of that
version and some bytes, so no text is read as two kinds (`typed_addresses`).  Nothing looks at the
number of these bytes, and the getters of seeds and account numbers give zero where it is not theirs
(`sized_texts_kept`).
-/

namespace Newcoin

/-! ### White space -/

/-- The run of a framed text is the text without the white space at its ends. -/
lemma trim_of_framed {s run : Bytes} (h : Framed s run) : trim s = run := by
  obtain ⟨pre, post, rfl, hpre, hrun, hpost⟩ := h
  have hpost' : (pre ++ run ++ post).rdropWhile isSpace = (pre ++ run).rdropWhile isSpace := by
    rw [List.rdropWhile, List.rdropWhile, List.reverse_append, List.dropWhile_append_of_pos]
    simpa using hpost
  rw [trim, hpost']
  rcases List.eq_nil_or_concat' run with rfl | ⟨ps, p, rfl⟩
  · rw [List.append_nil, List.rdropWhile_eq_nil_iff.2 hpre]
    rfl
  · have hp : isSpace p = false := isSpace_pszBase58 p (hrun p (by simp))
    rw [← List.append_assoc, List.rdropWhile_concat_neg _ _ _ (by simp [hp]), List.append_assoc,
      List.dropWhile_append_of_pos hpre]
    refine List.dropWhile_eq_self_iff.2 fun hlen hspace => ?_
    rw [isSpace_pszBase58 _ (hrun _ (List.getElem_mem _))] at hspace
    cases hspace

lemma framed_trim {s : Bytes} (h : ∀ p ∈ trim s, p ∈ pszBase58) : Framed s (trim s) := by
  refine ⟨(s.rdropWhile isSpace).takeWhile isSpace, s.rtakeWhile isSpace, ?_, ?_, h, ?_⟩
  · rw [trim, List.takeWhile_append_dropWhile, List.rdropWhile_append_rtakeWhile]
  · exact fun p hp => List.mem_takeWhile_imp hp
  · exact fun p hp => List.mem_rtakeWhile_imp hp

/-- White space around the encoding of bytes does not change what it decodes to. -/
lemma DecodeBase58_framed {s vch : Bytes} (h : Framed s (EncodeBase58 vch)) : DecodeBase58 s = (true, vch) := by
  obtain ⟨htrue, henc⟩ := decode_framed h
  have hvch := (congrArg DecodeBase58 henc).symm.trans (decode_encode _)
  rw [decode_encode] at hvch
  exact Prod.ext htrue (Prod.mk.inj hvch).2.symm

namespace NewcoinAddress

variable (env : Crypto)

/-- `str` is, but for white space, the text of `version` and `data`. -/
def TextOf (version : UInt8) (data str : Bytes) : Prop :=
  trim str = EncodeBase58Check env.SHA256Hash (version :: data)

variable {env}

lemma TextOf.framed {version : UInt8} {data str : Bytes} (h : TextOf env version data str) :
    Framed str (EncodeBase58Check env.SHA256Hash (version :: data)) := by
  rw [← h]
  exact framed_trim fun p hp => mem_EncodeBase58 (h ▸ hp)

/-- A text of `version` and `data` is read as them. -/
lemma TextOf.SetString {version : UInt8} {data str : Bytes} (h : TextOf env version data str) :
    SetString env str version = (true, ⟨version, data⟩) := by
  have hcheck : DecodeBase58Check env.SHA256Hash str = (true, version :: data) := by
    rw [← DecodeBase58Check_encode env.SHA256Hash (version :: data), DecodeBase58Check, DecodeBase58Check,
      EncodeBase58Check, decode_encode, DecodeBase58_framed h.framed]
  rw [NewcoinAddress.SetString, hcheck]
  exact if_neg (not_not.2 rfl)

lemma decoded_of_SetString {version : UInt8} {str : Bytes} (h : (SetString env str version).1 = true) :
    ∃ data, (DecodeBase58Check env.SHA256Hash str).2 = version :: data := by
  unfold SetString at h
  split at h
  · cases h
  next v data hdata =>
    split at h
    · cases h
    next hv => exact ⟨data, hdata.trans (congrArg (· :: data) (not_not.1 hv))⟩

/-- What is read as an address is the text of the bytes it then holds. -/
lemma textOf_of_SetString {version : UInt8} {str : Bytes} (h0 : 0 ∉ str)
    (h : (SetString env str version).1 = true) : TextOf env version (SetString env str version).2.vchData str := by
  have hcheck : (DecodeBase58Check env.SHA256Hash str).2 ≠ [] := by
    obtain ⟨data, hdata⟩ := decoded_of_SetString h
    rw [hdata]
    exact List.cons_ne_nil _ _
  have hdecode : (DecodeBase58 str).1 = true := by
    by_contra hfail
    have hnil := decode_fails_empty str (by simpa using hfail)
    rw [DecodeBase58_of_check hcheck] at hnil
    exact hcheck (List.append_eq_nil_iff.1 hnil).1
  obtain ⟨run, hrun⟩ := framed_of_decode h0 hdecode
  have htext := ToString_SetString env hrun h
  rw [ToString, SetString_eq env h] at htext
  exact (trim_of_framed hrun).trans htext.symm

lemma SetString_true_iff {version : UInt8} {str : Bytes} (h0 : 0 ∉ str) :
    (SetString env str version).1 = true ↔ ∃ data, TextOf env version data str :=
  ⟨fun h => ⟨_, textOf_of_SetString h0 h⟩, fun ⟨_, h⟩ => congrArg Prod.fst h.SetString⟩

/-- A text is read as one version only. -/
lemma version_unique {v w : UInt8} {str : Bytes} (hv : (SetString env str v).1 = true)
    (hw : (SetString env str w).1 = true) : v = w := by
  obtain ⟨data, hdata⟩ := decoded_of_SetString hv
  obtain ⟨data', hdata'⟩ := decoded_of_SetString hw
  exact (List.cons.inj (hdata.symm.trans hdata')).1

end NewcoinAddress

/-! ### Kinds -/

/-- The kinds of address that have a text form. -/
inductive AddressKind
  | nodePublic | nodePrivate | accountID | accountPublic | accountPrivate | generator | seed

namespace AddressKind

open NewcoinAddress

def version : AddressKind → UInt8
  | nodePublic => VER_NODE_PUBLIC
  | nodePrivate => VER_NODE_PRIVATE
  | accountID => VER_ACCOUNT_ID
  | accountPublic => VER_ACCOUNT_PUBLIC
  | accountPrivate => VER_ACCOUNT_PRIVATE
  | generator => VER_FAMILY_GENERATOR
  | seed => VER_FAMILY_SEED

/-- The setter from a text. -/
def set (env : Crypto) : AddressKind → Bytes → Bool × NewcoinAddress
  | nodePublic => setNodePublic env
  | nodePrivate => setNodePrivate env
  | accountID => setAccountID env
  | accountPublic => setAccountPublic env
  | accountPrivate => setAccountPrivate env
  | generator => setGenerator env
  | seed => setSeedText env

/-- The getter of the text. -/
def human (env : Crypto) (Hash160 : Bytes → BaseUInt 160) : AddressKind → NewcoinAddress → Except Fault Bytes
  | nodePublic => humanNodePublic env
  | nodePrivate => humanNodePrivate env
  | accountID => humanAccountID env Hash160
  | accountPublic => humanAccountPublic env
  | accountPrivate => humanAccountPrivate env
  | generator => humanGenerator env
  | seed => humanSeed env

lemma set_eq (env : Crypto) (k : AddressKind) (str : Bytes) : k.set env str = SetString env str k.version := by
  cases k <;> rfl

lemma version_inj {k l : AddressKind} (h : k.version = l.version) : k = l := by
  cases k <;> cases l <;> first | rfl | exact absurd h (by decide)

/-- Each kind's getter gives the text of an address of its version. -/
lemma human_eq {env : Crypto} {Hash160 : Bytes → BaseUInt 160} {k : AddressKind} {na : NewcoinAddress}
    (h : na.nVersion = k.version) : k.human env Hash160 na = .ok (na.ToString env) := by
  obtain ⟨nVersion, vchData⟩ := na
  obtain rfl : nVersion = k.version := h
  cases k <;> rfl

end AddressKind

namespace NewcoinAddress

variable {env : Crypto}

/-- The seed read from `str`, set in a new address and printed. -/
def reprintSeed (env : Crypto) (str : Bytes) : Except Fault Bytes := do
  let uSeed ← (setSeedText env str).2.getSeed
  (setSeed uSeed).humanSeed env

/-- The account number read from `str`, set in a new address and printed. -/
def reprintAccountID (env : Crypto) (Hash160 : Bytes → BaseUInt 160) (str : Bytes) : Except Fault Bytes := do
  let hash160 ← (setAccountID env str).2.getAccountID Hash160
  (setAccountID160 hash160).humanAccountID env Hash160

/-- `str` is, but for white space, the text of `version` and `size` bytes. -/
def SizedText (env : Crypto) (version : UInt8) (size : ℕ) (str : Bytes) : Prop :=
  ∃ data, data.length = size ∧ trim str = EncodeBase58Check env.SHA256Hash (version :: data)

lemma ofBytes_bytes_iff {BITS : ℕ} {data : Bytes} :
    (BaseUInt.ofBytes BITS data).bytes = data ↔ data.length = BITS / 8 := by
  constructor
  · intro h
    rw [← h]
    exact (BaseUInt.ofBytes BITS data).size
  · intro h
    rw [BaseUInt.ofBytes, dif_pos h]

/-- Bytes put through a number print as before exactly if they have its size. -/
lemma resized_text_iff {BITS : ℕ} {version : UInt8} {data str : Bytes} (h : TextOf env version data str) :
    (⟨version, (BaseUInt.ofBytes BITS data).bytes⟩ : NewcoinAddress).ToString env = trim str ↔
      SizedText env version (BITS / 8) str := by
  rw [ToString, h]
  constructor
  · intro htext
    have hbytes := (List.cons.inj (EncodeBase58Check_inj htext)).2
    exact ⟨data, ofBytes_bytes_iff.1 hbytes, h⟩
  · rintro ⟨data', hsize, h'⟩
    obtain rfl := (List.cons.inj (EncodeBase58Check_inj (h.symm.trans h'))).2
    rw [ofBytes_bytes_iff.2 hsize]

lemma reprintSeed_eq {data str : Bytes} (h : TextOf env VER_FAMILY_SEED data str) :
    (setSeedText env str).2.getSeed = .ok (BaseUInt.ofBytes 128 data) ∧ reprintSeed env str =
      .ok ((⟨VER_FAMILY_SEED, (BaseUInt.ofBytes 128 data).bytes⟩ : NewcoinAddress).ToString env) := by
  unfold reprintSeed setSeedText
  rw [h.SetString]
  exact ⟨rfl, rfl⟩

lemma reprintAccountID_eq {Hash160 : Bytes → BaseUInt 160} {data str : Bytes} (h : TextOf env VER_ACCOUNT_ID data str) :
    (setAccountID env str).2.getAccountID Hash160 = .ok (BaseUInt.ofBytes 160 data) ∧
      reprintAccountID env Hash160 str =
        .ok ((⟨VER_ACCOUNT_ID, (BaseUInt.ofBytes 160 data).bytes⟩ : NewcoinAddress).ToString env) := by
  unfold reprintAccountID setAccountID
  rw [h.SetString]
  exact ⟨rfl, rfl⟩

/-- Two texts of one version and size are the same if their numbers are. -/
lemma sizedText_inj {BITS : ℕ} {version : UInt8} {data data' str str' : Bytes} (h : TextOf env version data str)
    (h' : TextOf env version data' str') (hs : SizedText env version (BITS / 8) str)
    (hs' : SizedText env version (BITS / 8) str')
    (hsame : BaseUInt.ofBytes BITS data = BaseUInt.ofBytes BITS data') : trim str = trim str' := by
  rw [← (resized_text_iff h).2 hs, ← (resized_text_iff h').2 hs', hsame]

/-- The hashes of a seed text of fifteen bytes and of the seed zero. -/
def twoSeeds : Crypto where
  SHA256Hash vch := BaseUInt.ofBytes 256 <|
    if vch = [33, 1, 2, 3, 4, 5, 6, 7, 8, 9, 10, 11, 12, 13, 14, 15] then
      [190, 207, 130, 82, 249, 202, 172, 126, 8, 209, 229, 65, 79, 174, 9, 253, 108, 29, 235, 37, 39, 111, 58, 65,
        57, 20, 32, 58, 223, 119, 21, 119]
    else if vch = 33 :: List.replicate 16 0 then
      [217, 237, 74, 136, 12, 40, 73, 8, 217, 28, 104, 46, 105, 62, 80, 119, 213, 136, 222, 164, 23, 226, 190, 143,
        95, 255, 68, 147, 75, 7, 166, 155]
    else []
  PassPhraseToKey _ := BaseUInt.zero 128
  SetPubKey _ := true
  SetPrivateKeyU _ := true

end NewcoinAddress

end Newcoin
