import Newcoin.Base58.Bijection
import Newcoin.NewcoinAddress

/-!
# The text form of an address

Reading what `ToString` writes gives the address back (`SetString_ToString`); the text has letters and
digits only, so it can stand between quotes (`quote_notMem_ToString`).
-/

namespace Newcoin

open Lib

/-- **Decoding undoes encoding**, the check included. -/
theorem DecodeBase58Check_encode (SHA256Hash : Bytes → BaseUInt 256) (vch : Bytes) :
    DecodeBase58Check SHA256Hash (EncodeBase58Check SHA256Hash vch) = (true, vch) := by
  have hlen : ((SHA256Hash vch).bytes.take 4).length = 4 := by
    rw [List.length_take, (SHA256Hash vch).size]
    rfl
  rw [DecodeBase58Check, EncodeBase58Check, decode_encode]
  simp only [Bool.not_true, Bool.false_eq_true, if_false, List.length_append, hlen]
  rw [if_neg (by omega), Nat.add_sub_cancel, List.take_left, List.drop_left, if_neg (not_not.2 rfl)]

lemma EncodeBase58Check_inj {SHA256Hash : Bytes → BaseUInt 256} {a b : Bytes}
    (h : EncodeBase58Check SHA256Hash a = EncodeBase58Check SHA256Hash b) : a = b := by
  have hdec := congrArg (DecodeBase58Check SHA256Hash) h
  rw [DecodeBase58Check_encode, DecodeBase58Check_encode] at hdec
  exact (Prod.mk.inj hdec).2

/-- What passed the check stood before it. -/
lemma DecodeBase58_of_check {SHA256Hash : Bytes → BaseUInt 256} {s : Bytes}
    (h : (DecodeBase58Check SHA256Hash s).2 ≠ []) :
    (DecodeBase58 s).2 = (DecodeBase58Check SHA256Hash s).2 ++
      (SHA256Hash (DecodeBase58Check SHA256Hash s).2).bytes.take 4 := by
  unfold DecodeBase58Check at h ⊢
  dsimp only at h ⊢
  split at h
  next hfail => exact absurd (decode_fails_empty s (by simpa using hfail)) h
  · split at h
    · exact absurd rfl h
    · split at h
      · exact absurd rfl h
      next hgood hlen hhash =>
        rw [if_neg hgood, if_neg hlen, if_neg hhash, not_not.1 hhash, List.take_append_drop]

lemma mem_EncodeBase58 {vch : Bytes} {c : UInt8} (h : c ∈ EncodeBase58 vch) : c ∈ pszBase58 := by
  rw [EncodeBase58_eq] at h
  obtain ⟨d, hd, rfl⟩ := List.mem_map.1 h
  exact base58Char_mem d (toDigits_lt (by omega) d hd)

/-- The first character, and how many follow it, from bounds on the number. -/
lemma EncodeBase58_cons {b : UInt8} {bs : Bytes} {d e k : ℕ} (hd : 0 < d) (he : e ≤ 58)
    (hlow : d * 58 ^ k ≤ b.toNat * 256 ^ bs.length) (hhigh : (b.toNat + 1) * 256 ^ bs.length ≤ e * 58 ^ k) :
    ∃ i cs, EncodeBase58 (b :: bs) = base58Char i :: cs ∧ cs.length = k ∧ d ≤ i ∧ i < e := by
  have hk : 0 < 58 ^ k := Nat.pow_pos (by omega)
  have hb : b.toNat ≠ 0 := by
    intro hb
    rw [hb, Nat.zero_mul] at hlow
    exact absurd (Nat.mul_pos hd hk) (by omega)
  have hzeros : leadingZeros ((b :: bs).map UInt8.toNat) = 0 := by
    rw [leadingZeros, List.map_cons, List.takeWhile_cons_of_neg (by simpa using hb)]
    rfl
  have hrest : value 256 (bs.map UInt8.toNat) < 256 ^ bs.length := by
    have hlt := @value_lt 256 (by omega) (bs.map UInt8.toNat) fun c hc => by
      obtain ⟨u, -, rfl⟩ := List.mem_map.1 hc
      exact u.toNat_lt
    rwa [List.length_map] at hlt
  have hvalue : value 256 ((b :: bs).map UInt8.toNat) = b.toNat * 256 ^ bs.length + value 256 (bs.map UInt8.toNat) := by
    rw [List.map_cons, value_cons, List.length_map]
  have hlt : value 256 ((b :: bs).map UInt8.toNat) < e * 58 ^ k := by
    rw [Nat.succ_mul] at hhigh
    omega
  have hge : d * 58 ^ k ≤ value 256 ((b :: bs).map UInt8.toNat) := by omega
  have hlow' := (Nat.le_div_iff_mul_le hk).2 hge
  have hhigh' := (Nat.div_lt_iff_lt_mul hk).2 hlt
  obtain ⟨ds, hds, hlen⟩ := @toDigits_eq_cons 58 k _ (hd.trans_le hlow') (hhigh'.trans_le he)
  refine ⟨_, ds.map base58Char, ?_, by rw [List.length_map, hlen], hlow', hhigh'⟩
  rw [EncodeBase58_eq, hzeros, hds]
  rfl

namespace NewcoinAddress

variable (env : Crypto)

/-- A public key is an encoded point: infinity in one byte, a compressed point, or an uncompressed one. -/
def TakesPoints : Prop :=
  ∀ vch, env.SetPubKey vch = true → vch.length = 1 ∨ vch.length = 33 ∨ vch.length = 65

variable {env}

/-- The text of a node's key: its first character, and how many follow it. -/
lemma ToString_node (hpoints : TakesPoints env) {na : NewcoinAddress} (hversion : na.nVersion = VER_NODE_PUBLIC)
    (hvalid : na.isValid env = true) :
    ∃ c cs, na.ToString env = c :: cs ∧ c ∈ cString "NEnp" ∧ (cs.length = 7 ∨ cs.length = 51 ∨ cs.length = 95) := by
  have hlen : (na.vchData ++ (env.SHA256Hash (na.nVersion :: na.vchData)).bytes.take 4).length =
      na.vchData.length + 4 := by
    rw [List.length_append, List.length_take, (env.SHA256Hash _).size]
    rfl
  have hsize : na.vchData.length = 1 ∨ na.vchData.length = 33 ∨ na.vchData.length = 65 := by
    refine hpoints na.vchData ?_
    unfold isValid at hvalid
    split_ifs at hvalid
    exact hvalid
  have hversion' : na.nVersion.toNat = 28 := congrArg UInt8.toNat hversion
  rw [ToString, EncodeBase58Check, List.cons_append]
  generalize na.vchData ++ (env.SHA256Hash (na.nVersion :: na.vchData)).bytes.take 4 = bs at hlen ⊢
  rcases hsize with h | h | h <;> rw [h] at hlen
  · obtain ⟨i, cs, htext, hcs, hlow, hhigh⟩ := @EncodeBase58_cons na.nVersion bs 13 15 7 (by omega) (by omega)
      (by rw [hversion', hlen]; norm_num) (by rw [hversion', hlen]; norm_num)
    refine ⟨_, cs, htext, ?_, .inl hcs⟩
    obtain rfl | rfl : i = 13 ∨ i = 14 := by omega
    · decide
    · decide
  · obtain ⟨i, cs, htext, hcs, hlow, hhigh⟩ := @EncodeBase58_cons na.nVersion bs 4 5 51 (by omega) (by omega)
      (by rw [hversion', hlen]; norm_num) (by rw [hversion', hlen]; norm_num)
    obtain rfl : i = 4 := by omega
    exact ⟨_, cs, htext, by decide, .inr (.inl hcs)⟩
  · obtain ⟨i, cs, htext, hcs, hlow, hhigh⟩ := @EncodeBase58_cons na.nVersion bs 1 2 95 (by omega) (by omega)
      (by rw [hversion', hlen]; norm_num) (by rw [hversion', hlen]; norm_num)
    obtain rfl : i = 1 := by omega
    exact ⟨_, cs, htext, by decide, .inr (.inr hcs)⟩

variable (env)

theorem SetString_ToString (na : NewcoinAddress) :
    SetString env (na.ToString env) na.nVersion = (true, na) := by
  rw [SetString, ToString, DecodeBase58Check_encode]
  exact if_neg (not_not.2 rfl)

/-- **The text an address was read from** is its text form, but for white space. -/
theorem ToString_SetString {str run : Bytes} {version : UInt8} (hrun : Framed str run)
    (h : (SetString env str version).1 = true) : (SetString env str version).2.ToString env = run := by
  unfold SetString at h ⊢
  split at h
  · cases h
  next v data hdata =>
    split at h
    · cases h
    next hv =>
      have hcheck := @DecodeBase58_of_check env.SHA256Hash str (by simp [hdata])
      rw [hdata] at hcheck
      rw [if_neg hv, ToString, EncodeBase58Check, ← hcheck]
      exact (decode_framed hrun).2

/-- The same for a text of nothing but characters of the alphabet. -/
lemma ToString_of_text {na : NewcoinAddress} {str : Bytes} {version : UInt8}
    (halphabet : (str.all fun p => pszBase58.contains p) = true)
    (h : SetString env str version = (true, na)) : na.ToString env = str := by
  have hframed : Framed str str := ⟨[], [], by simp, by simp, by simpa using halphabet, by simp⟩
  have htext := ToString_SetString env hframed (congrArg Prod.fst h)
  rwa [h] at htext

lemma SetString_eq {str : Bytes} {version : UInt8} (h : (SetString env str version).1 = true) :
    (SetString env str version).2.nVersion = version := by
  unfold SetString at h ⊢
  split at h
  · cases h
  · split at h
    · cases h
    next heq hv =>
      rw [if_neg hv]
      exact not_not.1 hv

lemma SetString_false {version : UInt8} {str : Bytes} (h : (SetString env str version).1 = false) :
    SetString env str version = (false, clear) := by
  unfold SetString at h ⊢
  split at h
  · rfl
  · split at h
    next hv => rw [if_pos hv]
    · cases h

lemma quote_notMem_ToString (na : NewcoinAddress) : 39 ∉ na.ToString env := fun h =>
  absurd (mem_EncodeBase58 h) (by decide)

/-- Every getter of the version's text succeeds. -/
lemma humanNodePublic_eq {na : NewcoinAddress} (h : na.nVersion = VER_NODE_PUBLIC) :
    na.humanNodePublic env = .ok (na.ToString env) := by
  have hne : VER_NODE_PUBLIC ≠ VER_NONE := by decide
  rw [humanNodePublic, checkSource, h, if_neg hne, if_pos rfl]
  rfl

end NewcoinAddress

end Newcoin
