import Newcoin.Base58.Defs
import Newcoin.Lib.Positional

/-!
# Base 58 is a bijection

Both bytes and characters are digit strings with leading zeros, over the bases 256 and 58; encoding and
decoding keep the number and the count of zeros (`EncodeBase58_eq`, `DecodeBase58_eq`), so they are
inverse to each other.
-/

namespace Newcoin

open Lib

/-! ### The alphabet -/

lemma idxOf_base58Char : ∀ d < 58, pszBase58.idxOf? (base58Char d) = some d := by
  decide +kernel

lemma pszBase58_eq : pszBase58 = (List.range 58).map base58Char := by decide +kernel

lemma exists_base58Char : ∀ p ∈ pszBase58, ∃ d < 58, base58Char d = p := by
  intro p hp
  rw [pszBase58_eq] at hp
  obtain ⟨d, hd, rfl⟩ := List.mem_map.1 hp
  exact ⟨d, List.mem_range.1 hd, rfl⟩

lemma base58Char_mem : ∀ d < 58, base58Char d ∈ pszBase58 := by
  intro d hd
  rw [pszBase58_eq]
  exact List.mem_map_of_mem (List.mem_range.2 hd)

lemma isSpace_pszBase58 : ∀ p ∈ pszBase58, isSpace p = false := by
  have hall : (pszBase58.all fun p => !isSpace p) = true := by decide
  simpa using hall

lemma zero_notMem_pszBase58 : 0 ∉ pszBase58 := by decide

lemma base58Char_eq_zero : ∀ d < 58, base58Char d = base58Char 0 → d = 0 := by decide

/-- Every run of alphabet characters is the image of a digit string. -/
lemma exists_digits {run : Bytes} (h : ∀ p ∈ run, p ∈ pszBase58) :
    ∃ ds : List ℕ, (∀ d ∈ ds, d < 58) ∧ run = ds.map base58Char := by
  induction run with
  | nil => exact ⟨[], by simp, rfl⟩
  | cons p run ih =>
    obtain ⟨ds, hds, rfl⟩ := ih fun q hq => h q (List.mem_cons_of_mem _ hq)
    obtain ⟨d, hd, rfl⟩ := exists_base58Char p (h p List.mem_cons_self)
    exact ⟨d :: ds, by simpa using ⟨hd, hds⟩, rfl⟩

/-! ### Bytes as digits -/

lemma beNat_eq_value (bs : Bytes) : beNat bs = value 256 (bs.map UInt8.toNat) := by
  rw [beNat, value, List.map_reverse]

lemma map_toNat_ofNat {ds : List ℕ} (h : ∀ d ∈ ds, d < 256) :
    (ds.map UInt8.ofNat).map UInt8.toNat = ds := by
  rw [List.map_map]
  refine (List.map_congr_left fun d hd => ?_).trans (List.map_id ds)
  simp only [Function.comp_apply, UInt8.toNat_ofNat', id]
  exact Nat.mod_eq_of_lt (h d hd)

lemma map_ofNat_toNat (bs : Bytes) : (bs.map UInt8.toNat).map UInt8.ofNat = bs := by
  rw [List.map_map]
  refine (List.map_congr_left fun b _ => ?_).trans (List.map_id bs)
  exact UInt8.ofNat_toNat

lemma leadingZeros_map_toNat (bs : Bytes) :
    leadingZeros (bs.map UInt8.toNat) = (bs.takeWhile (· == 0)).length := by
  rw [leadingZeros, List.takeWhile_map, List.length_map]
  congr 2
  funext b
  exact Bool.eq_iff_iff.2 (by simp [← UInt8.toNat_inj])

lemma toDigits_lt {b zeros n : ℕ} (hb : 1 < b) : ∀ d ∈ toDigits b zeros n, d < b := by
  intro d hd
  rcases List.mem_append.1 hd with h | h
  · rw [(List.mem_replicate.1 h).2]
    omega
  · exact Nat.digits_lt_base hb (List.mem_reverse.1 h)

/-! ### The number in between -/

/-- The zero that `EncodeBase58` puts behind the bytes keeps the number positive. -/
lemma setvch_reverse_concat (vch : Bytes) : CBigNum.setvch (vch.reverse ++ [0]) = beNat vch := by
  have hdrop : ∀ n, (beBytes 4 n ++ (vch.reverse ++ [0]).reverse).drop 4 = 0 :: vch := fun n => by
    rw [List.drop_left' (length_beBytes 4 n)]
    simp
  rw [CBigNum.setvch, BN_mpi2bn]
  simp only [hdrop]
  rw [if_neg (by decide), beNat_cons]
  simp

/-- The sign byte, where `BN_bn2mpi` puts one, is trimmed off, and nothing else is. -/
lemma trimSign_getvch (n : ℕ) : trimSign (CBigNum.getvch n) = (Nat.digits 256 n).map UInt8.ofNat := by
  have hget : CBigNum.getvch n =
      (if (magnitude n).head?.any (· ≥ 0x80) then 0 :: magnitude n else magnitude n).reverse := by
    rw [CBigNum.getvch, BN_bn2mpi, if_neg (by omega : ¬ (n : ℤ) < 0), Int.natAbs_natCast, if_neg (by simp),
      List.drop_left' (length_beBytes 4 _)]
  have hmag : (magnitude n).reverse = (Nat.digits 256 n).map UInt8.ofNat := List.reverse_reverse _
  rw [hget, ← hmag]
  cases hm : magnitude n with
  | nil => rfl
  | cons b bs =>
    -- The most significant byte is not zero.
    have hb : b ≠ 0 := by
      have hne : Nat.digits 256 n ≠ [] := by
        intro h
        simp [magnitude, h] at hm
      have hlast := Nat.getLast_digit_ne_zero 256 (Nat.digits_ne_nil_iff_ne_zero.1 hne)
      have hlt := Nat.digits_lt_base (by omega) (List.getLast_mem hne)
      have hhead : (magnitude n).head? = some (UInt8.ofNat ((Nat.digits 256 n).getLast hne)) := by
        rw [magnitude, List.head?_reverse, List.getLast?_map, List.getLast?_eq_getLast_of_ne_nil hne]
        rfl
      rw [hm, List.head?_cons] at hhead
      rw [Option.some.inj hhead, ne_eq, ← UInt8.toNat_inj, UInt8.toNat_ofNat', Nat.mod_eq_of_lt hlt]
      exact hlast
    by_cases hbig : b ≥ 0x80
    · simp [trimSign, hbig]
    · simp [trimSign, hbig, hb]

/-! ### Encoding -/

lemma encodeDigits_natCast (n : ℕ) : encodeDigits n = (Nat.digits 58 n).map base58Char := by
  induction n using Nat.strong_induction_on with
  | _ n ih =>
    rw [encodeDigits]
    rcases Nat.eq_zero_or_pos n with rfl | hn
    · simp
    · rw [if_pos (by omega), Nat.digits_def' (by omega) hn, List.map_cons, ← ih (n / 58) (by omega)]
      rfl

/-- **Encoding keeps the number and the leading zeros.** -/
theorem EncodeBase58_eq (vch : Bytes) :
    EncodeBase58 vch = (toDigits 58 (leadingZeros (vch.map UInt8.toNat))
      (value 256 (vch.map UInt8.toNat))).map base58Char := by
  rw [EncodeBase58, toDigits, setvch_reverse_concat, encodeDigits_natCast, leadingZeros_map_toNat,
    beNat_eq_value, List.reverse_append, List.reverse_replicate, List.map_append, List.map_replicate,
    List.map_reverse]

/-! ### Decoding -/

lemma decodeDigits_spaces {post : Bytes} (h : ∀ p ∈ post, isSpace p = true) (bn : ℤ) :
    decodeDigits bn post = some bn := by
  cases post with
  | nil => rfl
  | cons p ps =>
    have hp : p ∉ pszBase58 := fun hm => by
      have h1 := isSpace_pszBase58 p hm
      rw [h p List.mem_cons_self] at h1
      cases h1
    rw [decodeDigits, List.idxOf?_eq_none_iff.2 hp]
    exact if_pos (List.dropWhile_eq_nil_iff.2 h)

lemma decodeDigits_run {ds : List ℕ} (hds : ∀ d ∈ ds, d < 58) {post : Bytes}
    (h : ∀ p ∈ post, isSpace p = true) (n : ℕ) :
    decodeDigits n (ds.map base58Char ++ post) = some ((n * 58 ^ ds.length + value 58 ds : ℕ) : ℤ) := by
  induction ds generalizing n with
  | nil =>
    rw [List.map_nil, List.nil_append, decodeDigits_spaces h]
    simp [value]
  | cons d ds ih =>
    have hstep : (n : ℤ) * 58 + d = ((n * 58 + d : ℕ) : ℤ) := by simp
    rw [List.map_cons, List.cons_append, decodeDigits, idxOf_base58Char d (hds d List.mem_cons_self)]
    dsimp only
    rw [hstep, ih (fun e he => hds e (List.mem_cons_of_mem _ he)), List.length_cons, value_cons]
    congr 2
    ring

/-- What the loop accepts. -/
lemma exists_run_of_decodeDigits {s : Bytes} {bn bn' : ℤ} (h : decodeDigits bn s = some bn') :
    ∃ run post, s = run ++ post ∧ (∀ p ∈ run, p ∈ pszBase58) ∧ ∀ p ∈ post, isSpace p = true := by
  induction s generalizing bn with
  | nil => exact ⟨[], [], rfl, by simp, by simp⟩
  | cons p ps ih =>
    rw [decodeDigits] at h
    split at h
    · split_ifs at h with hsp
      exact ⟨[], p :: ps, rfl, by simp, List.dropWhile_eq_nil_iff.1 hsp⟩
    case _ d hd =>
      obtain ⟨run, post, rfl, hrun, hpost⟩ := ih h
      refine ⟨p :: run, post, rfl, ?_, hpost⟩
      intro q hq
      rcases List.mem_cons.1 hq with rfl | hq
      · exact List.isSome_idxOf?.1 (by rw [hd]; rfl)
      · exact hrun q hq

lemma takeWhile_run {ds : List ℕ} (hds : ∀ d ∈ ds, d < 58) {post : Bytes}
    (h : ∀ p ∈ post, isSpace p = true) :
    ((ds.map base58Char ++ post).takeWhile (· == base58Char 0)).length = leadingZeros ds := by
  induction ds with
  | nil =>
    cases post with
    | nil => rfl
    | cons p ps =>
      have hp : p ≠ base58Char 0 := by
        rintro rfl
        exact absurd (h _ List.mem_cons_self) (by decide)
      simp [leadingZeros, hp]
  | cons d ds ih =>
    have ih := ih fun e he => hds e (List.mem_cons_of_mem _ he)
    by_cases hd : d = 0
    · subst hd
      simp only [List.map_cons, List.cons_append, leadingZeros, List.takeWhile_cons_of_pos, beq_self_eq_true,
        List.length_cons] at ih ⊢
      rw [ih]
    · have hne : base58Char d ≠ base58Char 0 := fun he =>
        hd (base58Char_eq_zero d (hds d List.mem_cons_self) he)
      simp [leadingZeros, hd, hne]

/-- **Decoding keeps the number and the leading zeros.** -/
theorem DecodeBase58_eq {pre post : Bytes} {ds : List ℕ} (hpre : ∀ p ∈ pre, isSpace p = true)
    (hds : ∀ d ∈ ds, d < 58) (hpost : ∀ p ∈ post, isSpace p = true) :
    DecodeBase58 (pre ++ ds.map base58Char ++ post) =
      (true, (toDigits 256 (leadingZeros ds) (value 58 ds)).map UInt8.ofNat) := by
  have hnul : (pre ++ ds.map base58Char ++ post).takeWhile (· != 0) = pre ++ ds.map base58Char ++ post := by
    apply List.takeWhile_eq_self_iff.2
    intro p hp
    rw [bne_iff_ne]
    rintro rfl
    simp only [List.mem_append, List.mem_map] at hp
    rcases hp with (hp | ⟨d, hd, h0⟩) | hp
    · exact absurd (hpre 0 hp) (by decide)
    · exact zero_notMem_pszBase58 (h0 ▸ base58Char_mem d (hds d hd))
    · exact absurd (hpost 0 hp) (by decide)
  have hskip : (pre ++ ds.map base58Char ++ post).dropWhile isSpace =
      (ds.map base58Char ++ post).dropWhile isSpace := by
    rw [List.append_assoc, List.dropWhile_append_of_pos hpre]
  have hzero := decodeDigits_run hds hpost 0
  rw [Nat.zero_mul, Nat.zero_add] at hzero
  rw [DecodeBase58, hnul, DecodeBase58CStr]
  dsimp only
  rw [hskip]
  cases ds with
  | nil =>
    rw [List.map_nil, List.nil_append, List.dropWhile_eq_nil_iff.2 hpost]
    rfl
  | cons d ds =>
    rw [List.map_cons, List.cons_append, List.dropWhile_cons_of_neg, ← List.cons_append, ← List.map_cons,
      ← Nat.cast_zero, hzero]
    · dsimp only
      rw [trimSign_getvch, takeWhile_run hds hpost, toDigits, List.map_append, List.map_replicate,
        List.map_reverse]
      rfl
    · rw [isSpace_pszBase58 _ (base58Char_mem d (hds d List.mem_cons_self))]
      exact Bool.false_ne_true

/-! ### Both ways -/

/-- A run of alphabet characters, with or without white space on either side. -/
def Framed (s run : Bytes) : Prop :=
  ∃ pre post, s = pre ++ run ++ post ∧ (∀ p ∈ pre, isSpace p = true) ∧ (∀ p ∈ run, p ∈ pszBase58) ∧
    ∀ p ∈ post, isSpace p = true

theorem decode_encode (vch : Bytes) : DecodeBase58 (EncodeBase58 vch) = (true, vch) := by
  have hdec := @DecodeBase58_eq [] [] _ (by simp)
    (@toDigits_lt 58 (leadingZeros (vch.map UInt8.toNat)) (value 256 (vch.map UInt8.toNat)) (by omega))
    (by simp)
  rw [List.nil_append, List.append_nil, leadingZeros_toDigits, value_toDigits, toDigits_value (by omega),
    map_ofNat_toNat] at hdec
  · rw [EncodeBase58_eq, hdec]
  · intro d hd
    obtain ⟨b, _, rfl⟩ := List.mem_map.1 hd
    exact b.toNat_lt

theorem decode_framed {s run : Bytes} (h : Framed s run) :
    (DecodeBase58 s).1 = true ∧ EncodeBase58 (DecodeBase58 s).2 = run := by
  obtain ⟨pre, post, rfl, hpre, hrun, hpost⟩ := h
  obtain ⟨ds, hds, rfl⟩ := exists_digits hrun
  rw [DecodeBase58_eq hpre hds hpost]
  refine ⟨rfl, ?_⟩
  rw [EncodeBase58_eq, map_toNat_ofNat (toDigits_lt (by omega)), leadingZeros_toDigits, value_toDigits,
    toDigits_value (by omega) hds]

theorem framed_of_decode {s : Bytes} (h0 : 0 ∉ s) (h : (DecodeBase58 s).1 = true) : ∃ run, Framed s run := by
  have hnul : s.takeWhile (· != 0) = s :=
    List.takeWhile_eq_self_iff.2 fun p hp => bne_iff_ne.2 fun hp0 => h0 (hp0 ▸ hp)
  rw [DecodeBase58, hnul, DecodeBase58CStr] at h
  dsimp only at h
  split at h
  · cases h
  case _ bn hbn =>
    obtain ⟨run, post, hs, hrun, hpost⟩ := exists_run_of_decodeDigits hbn
    refine ⟨run, s.takeWhile isSpace, post, ?_, ?_, hrun, hpost⟩
    · rw [List.append_assoc, ← hs, List.takeWhile_append_dropWhile]
    · intro p hp
      exact List.mem_takeWhile_imp hp

theorem decode_fails_empty (s : Bytes) (h : (DecodeBase58 s).1 = false) : (DecodeBase58 s).2 = [] := by
  rw [DecodeBase58, DecodeBase58CStr] at h ⊢
  dsimp only at h ⊢
  split at h
  · rfl
  · cases h

end Newcoin
