import Newcoin.BaseUInt.Hex
import Newcoin.Lib.Positional

/-!
# The number that `SetHex` reads

A text is blanks, perhaps `0x`, digits, and something else (`HexText`, `exists_hexText`).  `SetHex` pairs
the digits from the first one on, so that an odd number of them is read with a zero behind (`beNat_hexPairs`):
`SetHex_reads_iff` has the texts that are read as the number they denote.
-/

namespace Newcoin.BaseUInt

open Lib Lib.Sql

variable {BITS W : ℕ}

/-! ### Texts -/

def isHexDigit (c : UInt8) : Bool := (hexDigit c).isSome

/-- `psz[0] == '0' && tolower(psz[1]) == 'x'`. -/
def HasMark (psz : Bytes) : Prop := psz.head? = some 48 ∧ (psz.drop 1).head?.map toLower = some 120

instance : DecidablePred HasMark := fun psz => by
  unfold HasMark
  infer_instance

/-- Leading blanks, a mark if there is one, all the digits there are, and what follows. -/
structure HexText where
  blanks : Bytes
  mark : Bytes
  digits : Bytes
  rest : Bytes
  isBlank : ∀ c ∈ blanks, isSpace c
  isMark : mark = [] ∨ mark = cString "0x" ∨ mark = cString "0X"
  isDigit : ∀ c ∈ digits, isHexDigit c
  noBlank : ∀ c ∈ (mark ++ (digits ++ rest)).head?, isSpace c = false
  noMark : mark = [] → ¬ HasMark (digits ++ rest)
  noDigit : ∀ c ∈ rest.head?, isHexDigit c = false

def HexText.text (t : HexText) : Bytes := t.blanks ++ (t.mark ++ (t.digits ++ t.rest))

/-- The number that digits denote. -/
def hexValue (cs : Bytes) : ℕ := value 16 (cs.map fun c => ((hexDigit c).getD 0).toNat)

/-! ### The code -/

/-- The digits that `SetHex` finds, from `pBegin` to `pEnd`. -/
def hexDigits (psz : Bytes) : Bytes :=
  let psz := psz.dropWhile isSpace
  let psz := if HasMark psz then psz.drop 2 else psz
  psz.takeWhile isHexDigit

/-- The loop that writes the bytes, from `pOut = end() - (pEnd - pBegin + 1) / 2` on.  What is written before
the object has no defined outcome. -/
def writePairs (BITS : ℕ) (digits : Bytes) : Except Fault (BaseUInt BITS) :=
  let count := (digits.length + 1) / 2
  if count > BITS / 8 then .error .outOfBounds
  else .ok (ofBytes BITS (List.replicate (BITS / 8 - count) 0 ++ hexPairs digits))

/-- `SetHex`, with the number of digits compared as an `unsigned int`. -/
def SetHexUInt (BITS : ℕ) (psz : Bytes) : Except Fault (BaseUInt BITS) :=
  let digits := hexDigits psz
  let size := BITS / 8
  writePairs BITS (if digits.length % 2 ^ 32 > 2 * size then digits.drop (digits.length - 2 * size) else digits)

lemma length_hexPairs (cs : Bytes) : (hexPairs cs).length = (cs.length + 1) / 2 := by
  induction cs using hexPairs.induct with
  | case1 => rfl
  | case2 c => simp [hexPairs]
  | case3 c d cs ih =>
    simp only [hexPairs, List.length_cons, ih]
    omega

/-- For texts of fewer than 2^32 digits it is `SetHex`. -/
theorem SetHexUInt_eq {psz : Bytes} (h : (hexDigits psz).length < 2 ^ 32) :
    SetHexUInt BITS psz = .ok (SetHex BITS psz) := by
  have hdigits : SetHex BITS psz = ofBytes BITS (List.replicate
      (BITS / 8 - (hexPairs ((hexDigits psz).drop ((hexDigits psz).length - 2 * (BITS / 8)))).length) 0 ++
      hexPairs ((hexDigits psz).drop ((hexDigits psz).length - 2 * (BITS / 8)))) := rfl
  rw [hdigits, length_hexPairs, SetHexUInt]
  simp only [Nat.mod_eq_of_lt h]
  split_ifs with hlong
  · rw [writePairs, if_neg]
    rw [List.length_drop]
    omega
  · rw [show (hexDigits psz).length - 2 * (BITS / 8) = 0 by omega, List.drop_zero, writePairs, if_neg (by omega)]

/-! ### Texts and digits -/

lemma dropWhile_front {p : UInt8 → Bool} {as bs : Bytes} (ha : ∀ c ∈ as, p c) (hb : ∀ c ∈ bs.head?, p c = false) :
    (as ++ bs).dropWhile p = bs ∧ (as ++ bs).takeWhile p = as := by
  have hstop : bs.dropWhile p = bs ∧ bs.takeWhile p = [] := by
    cases bs with
    | nil => exact ⟨rfl, rfl⟩
    | cons b bs =>
      have hneg : ¬ p b = true := by simpa using hb b rfl
      exact ⟨List.dropWhile_cons_of_neg hneg, List.takeWhile_cons_of_neg hneg⟩
  rw [List.dropWhile_append_of_pos ha, List.takeWhile_append_of_pos ha, hstop.1, hstop.2, List.append_nil]
  exact ⟨rfl, rfl⟩

lemma hexDigits_text (t : HexText) : hexDigits t.text = t.digits := by
  have hblanks : t.text.dropWhile isSpace = t.mark ++ (t.digits ++ t.rest) :=
    (dropWhile_front t.isBlank t.noBlank).1
  have hdigits := (dropWhile_front t.isDigit t.noDigit).2
  rw [hexDigits, hblanks]
  rcases t.isMark with hm | hm | hm
  · rw [hm, List.nil_append]
    simp only [if_neg (t.noMark hm), hdigits]
  · have hmark : HasMark (t.mark ++ (t.digits ++ t.rest)) := by
      rw [hm]
      exact ⟨rfl, rfl⟩
    simp only [if_pos hmark]
    rw [hm]
    exact hdigits
  · have hmark : HasMark (t.mark ++ (t.digits ++ t.rest)) := by
      rw [hm]
      exact ⟨rfl, rfl⟩
    simp only [if_pos hmark]
    rw [hm]
    exact hdigits

lemma toLower_eq_x (c : UInt8) : toLower c = 120 → c = 120 ∨ c = 88 := by
  revert c
  refine forall_byte ?_
  decide +kernel

lemma head_dropWhile {p : UInt8 → Bool} {s : Bytes} : ∀ c ∈ (s.dropWhile p).head?, p c = false := by
  intro c hc
  have hne : s.dropWhile p ≠ [] := by
    rintro h
    rw [h] at hc
    cases hc
  rw [List.head?_eq_some_head hne, Option.mem_some_iff] at hc
  rw [← hc]
  simpa using List.head_dropWhile_not p hne

/-- **Every text is one.** -/
theorem exists_hexText (psz : Bytes) : ∃ t : HexText, t.text = psz := by
  obtain ⟨core, hcore⟩ : ∃ core, core = psz.dropWhile isSpace := ⟨_, rfl⟩
  obtain ⟨mark, tail, hsplit, hmark, hno⟩ : ∃ mark tail, core = mark ++ tail ∧
      (mark = [] ∨ mark = cString "0x" ∨ mark = cString "0X") ∧ (mark = [] → ¬ HasMark tail) := by
    by_cases h : HasMark core
    · obtain ⟨h0, hx⟩ := h
      match core, h0, hx with
      | c :: d :: cs, h0, hx =>
        have hc : c = 48 := by simpa using h0
        have hd : d = 120 ∨ d = 88 := toLower_eq_x d (by simpa using hx)
        refine ⟨[c, d], cs, rfl, .inr ?_, fun h => by cases h⟩
        rcases hd with rfl | rfl
        · exact .inl (by rw [hc]; rfl)
        · exact .inr (by rw [hc]; rfl)
    · exact ⟨[], core, rfl, .inl rfl, fun _ => h⟩
  have htail := List.takeWhile_append_dropWhile (p := isHexDigit) (l := tail)
  refine ⟨⟨psz.takeWhile isSpace, mark, tail.takeWhile isHexDigit, tail.dropWhile isHexDigit, ?_, hmark, ?_, ?_, ?_,
    head_dropWhile⟩, ?_⟩
  · exact fun c hc => List.mem_takeWhile_imp hc
  · exact fun c hc => List.mem_takeWhile_imp hc
  · rw [htail, ← hsplit, hcore]
    exact head_dropWhile
  · rw [htail]
    exact hno
  · change psz.takeWhile isSpace ++ (mark ++ (tail.takeWhile isHexDigit ++ tail.dropWhile isHexDigit)) = psz
    rw [htail, ← hsplit, hcore, List.takeWhile_append_dropWhile]

/-! ### Digits and numbers -/

lemma digit_lt (c : UInt8) : ((hexDigit c).getD 0).toNat < 16 := by
  revert c
  refine forall_byte ?_
  decide +kernel

lemma hexValue_cons (c : UInt8) (cs : Bytes) :
    hexValue (c :: cs) = ((hexDigit c).getD 0).toNat * 16 ^ cs.length + hexValue cs := by
  rw [hexValue, List.map_cons, value_cons, List.length_map, ← hexValue]

lemma hexValue_lt (cs : Bytes) : hexValue cs < 16 ^ cs.length := by
  have hdigits : ∀ d ∈ cs.map fun c => ((hexDigit c).getD 0).toNat, d < 16 := by
    intro d hd
    obtain ⟨c, -, rfl⟩ := List.mem_map.1 hd
    exact digit_lt c
  have hlt := value_lt (by omega) hdigits
  rwa [List.length_map] at hlt

lemma hexValue_append (as bs : Bytes) : hexValue (as ++ bs) = hexValue as * 16 ^ bs.length + hexValue bs := by
  induction as with
  | nil => simp [hexValue, value]
  | cons a as ih =>
    rw [List.cons_append, hexValue_cons, hexValue_cons, ih, List.length_append, pow_add]
    ring

/-- The last digits are the remainder. -/
lemma hexValue_drop {cs : Bytes} {n : ℕ} (h : n ≤ cs.length) :
    hexValue (cs.drop (cs.length - n)) = hexValue cs % 16 ^ n := by
  have hlen : (cs.drop (cs.length - n)).length = n := by
    rw [List.length_drop]
    omega
  have hlt := hexValue_lt (cs.drop (cs.length - n))
  conv_rhs => rw [← List.take_append_drop (cs.length - n) cs, hexValue_append, hlen]
  rw [hlen] at hlt
  rw [Nat.mul_add_mod_self_right, Nat.mod_eq_of_lt hlt]

lemma toNat_pair {high low : UInt8} (hh : high.toNat < 16) (hl : low.toNat < 16) :
    (high <<< 4 ||| low).toNat = high.toNat * 16 + low.toNat := by
  have key : ∀ n < 16, ∀ m < 16, (UInt8.ofNat n <<< 4 ||| UInt8.ofNat m).toNat = n * 16 + m := by decide +kernel
  have hpair := key high.toNat hh low.toNat hl
  rwa [UInt8.ofNat_toNat, UInt8.ofNat_toNat] at hpair

/-- Two digits a byte, and a zero behind an odd number of them. -/
lemma beNat_hexPairs (cs : Bytes) : beNat (hexPairs cs) = hexValue cs * 16 ^ (cs.length % 2) := by
  induction cs using hexPairs.induct with
  | case1 => rfl
  | case2 c =>
    have hpair := @toNat_pair _ 0 (digit_lt c) (by decide)
    rw [UInt8.or_zero] at hpair
    rw [hexPairs, beNat_cons, hpair, hexValue_cons]
    simp [hexValue, value]
  | case3 c d cs ih =>
    have hpow : (256 : ℕ) ^ ((cs.length + 1) / 2) = 16 ^ cs.length * 16 ^ (cs.length % 2) := by
      rw [show (256 : ℕ) = 16 ^ 2 by norm_num, ← pow_mul, ← pow_add]
      congr 1
      omega
    have hparity : (c :: d :: cs).length % 2 = cs.length % 2 := by
      rw [List.length_cons, List.length_cons]
      omega
    rw [hparity, hexPairs, beNat_cons, ih, length_hexPairs, toNat_pair (digit_lt c) (digit_lt d), hpow, hexValue_cons,
      hexValue_cons, List.length_cons, pow_succ]
    ring

/-- What `GetHex` prints is the number. -/
theorem hexValue_GetHex (a : BaseUInt BITS) : hexValue a.GetHex = a.toNat := by
  have h := beNat_hexPairs a.GetHex
  rw [GetHex, hexPairs_strHex, length_strHex, Nat.mul_mod_right, pow_zero, mul_one] at h
  exact h.symm

/-! ### What is read -/

lemma hexValue_eq_zero_iff {cs : Bytes} (h : ∀ c ∈ cs, isHexDigit c) : hexValue cs = 0 ↔ ∀ c ∈ cs, c = 48 := by
  have hdigit : ∀ c : UInt8, isHexDigit c → (((hexDigit c).getD 0).toNat = 0 ↔ c = 48) := by
    refine forall_byte ?_
    decide +kernel
  induction cs with
  | nil => simp [hexValue, value]
  | cons c cs ih =>
    have hc := hdigit c (h c List.mem_cons_self)
    have hcs : hexValue cs = 0 ↔ ∀ c ∈ cs, c = 48 := ih fun c hc => h c (List.mem_cons_of_mem _ hc)
    have hpos : (16 : ℕ) ^ cs.length ≠ 0 := by positivity
    rw [hexValue_cons, Nat.add_eq_zero_iff, Nat.mul_eq_zero, or_iff_left hpos, hc, hcs, List.forall_mem_cons]

lemma writePairs_reads_iff {cs : Bytes} {n : ℕ} :
    (∃ v, writePairs (32 * W) cs = .ok v ∧ hexValue v.GetHex = n) ↔
      cs.length ≤ 8 * W ∧ hexValue cs * 16 ^ (cs.length % 2) = n := by
  have hlen := length_hexPairs cs
  rw [writePairs]
  split_ifs with h
  · refine iff_of_false ?_ (by omega)
    rintro ⟨v, hv, -⟩
    cases hv
  · have hnum := @toNat_ofBytes_zeros (32 * W) (hexPairs cs) (32 * W / 8 - (cs.length + 1) / 2) (by omega)
    rw [beNat_hexPairs] at hnum
    simp only [Except.ok.injEq, exists_eq_left', hexValue_GetHex, hnum]
    exact (and_iff_right (by omega)).symm

/-- **Which numbers `SetHex` reads**: those of an even number of digits, zero, and those of too many digits,
as long as the number of digits does not wrap to one that fits. -/
theorem SetHex_reads_iff (W : ℕ) (t : HexText) :
    (∃ v, SetHexUInt (32 * W) t.text = .ok v ∧ hexValue v.GetHex = hexValue t.digits % 2 ^ (32 * W)) ↔
      t.digits.length % 2 ^ 32 > 8 * W ∨
      t.digits.length ≤ 8 * W ∧ (t.digits.length % 2 = 0 ∨ ∀ c ∈ t.digits, c = 48) := by
  have hsize : 2 * (32 * W / 8) = 8 * W := by omega
  have hpow : 2 ^ (32 * W) = 16 ^ (8 * W) := by
    rw [show (16 : ℕ) = 2 ^ 4 by norm_num, ← pow_mul]
    congr 1
    omega
  have hmod := Nat.mod_le t.digits.length (2 ^ 32)
  rw [SetHexUInt, hexDigits_text, writePairs_reads_iff, hpow]
  simp only [hsize]
  split_ifs with hlong
  · -- the last digits: an even number of them, and as many as fit
    have hlen : (t.digits.drop (t.digits.length - 8 * W)).length = 8 * W := by
      rw [List.length_drop]
      omega
    refine iff_of_true ⟨hlen.le, ?_⟩ (.inl hlong)
    rw [hexValue_drop (by omega), hlen, show 8 * W % 2 = 0 by omega, pow_zero, mul_one]
  · rw [or_iff_right hlong]
    refine and_congr_right fun hfit => ?_
    have hlt := (hexValue_lt t.digits).trans_le (Nat.pow_le_pow_right (show 0 < 16 by omega) hfit)
    rw [Nat.mod_eq_of_lt hlt, ← hexValue_eq_zero_iff t.isDigit]
    rcases Nat.mod_two_eq_zero_or_one t.digits.length with hpar | hpar
    · simp [hpar]
    · rw [hpar, pow_one]
      omega

/-- Three digits are read as four. -/
theorem SetHex_three_digits :
    (SetHexUInt 256 (cString "0x123")).map GetHex =
      .ok (cString "0000000000000000000000000000000000000000000000000000000000001230") ∧
    hexValue (cString "0000000000000000000000000000000000000000000000000000000000001230") ≠
      hexValue (cString "123") % 2 ^ 256 := by
  decide +kernel

end Newcoin.BaseUInt
