import Newcoin.Machine
import Newcoin.Lib.Sql

/-!
# Bytes in SQL statements

A statement holds a byte string as `'%s'`, which is text, or in hexadecimal as `X'…'`, which is a
blob; `sqlEscape` and `SqliteDatabase::escape` write the second form.
-/

namespace Newcoin

open Lib.Sql

def charHex (iDigit : UInt8) : UInt8 := if iDigit < 10 then 48 + iDigit else 65 - 10 + iDigit

/-- `strHex(strSrc)`. -/
def strHex (strSrc : Bytes) : Bytes := strSrc.flatMap fun c : UInt8 => [charHex (c >>> 4), charHex (c &&& 15)]

def sqlEscape (strSrc : Bytes) : Bytes := cString "X'" ++ strHex strSrc ++ cString "'"

/-- `strHex(first, iSize)`.  The result is resized to `iSize * 2` first: that throws for a negative size, and
is taken to throw where the product is no `int`. -/
def strHexInt (first : Bytes) (iSize : ℤ) : Option Bytes :=
  if iSize < 0 ∨ 2 ^ 31 ≤ iSize * 2 then none else some (strHex (first.take iSize.toNat))

/-- `sqlEscape` with the size passed as an `int`; `none` where `strHex` throws. -/
def sqlEscapeInt (strSrc : Bytes) : Option Bytes :=
  (strHexInt strSrc (toInt strSrc.length)).map fun hex => cString "X'" ++ hex ++ cString "'"

/-- `sprintf(buf, "%02X", c)`. -/
def hex02X (c : UInt8) : Bytes :=
  let digits := cString "0123456789ABCDEF"
  [digits.getD (c.toNat / 16) 0, digits.getD (c.toNat % 16) 0]

namespace SqliteDatabase

/-- The bytes of `[start, start + size)`. -/
def escape (strValue : Bytes) : Bytes := cString "X'" ++ strValue.flatMap hex02X ++ cString "'"

end SqliteDatabase

namespace Database

/-- `escape(const std::string)`; the size is passed as an `int`. -/
def escape (strValue : Bytes) : Bytes := SqliteDatabase.escape (strValue.take (toInt strValue.length).toNat)

/-- The bytes that it sees. -/
def cut (strValue : Bytes) : Bytes := strValue.take (toInt strValue.length).toNat

lemma escape_eq (strValue : Bytes) : escape strValue = SqliteDatabase.escape (cut strValue) := rfl

lemma cut_eq (strValue : Bytes) : cut strValue = strValue.take (toInt strValue.length).toNat := rfl

end Database

/-- `'%s'`. -/
def quoted (s : Bytes) : Bytes := cString "'" ++ s ++ cString "'"

/-! ### The values they stand for -/

lemma unhex_pair (c : UInt8) : hex02X c = [charHex (c >>> 4), charHex (c &&& 15)] ∧
    hexDigit (charHex (c >>> 4)) = some (c >>> 4) ∧ hexDigit (charHex (c &&& 15)) = some (c &&& 15) ∧
    (c >>> 4) * 16 + (c &&& 15) = c := by
  revert c
  refine forall_byte ?_
  decide +kernel

lemma unhex_strHex (s : Bytes) : unhex (strHex s) = some s := by
  induction s with
  | nil => rfl
  | cons c s ih =>
    obtain ⟨-, hh, hl, hc⟩ := unhex_pair c
    rw [strHex, List.flatMap_cons, ← strHex]
    simp only [List.cons_append, List.nil_append, unhex, hh, hl, ih, hc]

/-- Both encoders write the same digits. -/
lemma flatMap_hex02X (s : Bytes) : s.flatMap hex02X = strHex s :=
  congrArg (List.flatMap · s) (funext fun c => (unhex_pair c).1)

lemma literal_sqlEscape (s : Bytes) : literal (sqlEscape s) = some (.blob s) :=
  literal_blob (unhex_strHex s)

lemma literal_escape (s : Bytes) : literal (SqliteDatabase.escape s) = some (.blob s) := by
  rw [SqliteDatabase.escape, flatMap_hex02X]
  exact literal_sqlEscape s

lemma literal_escape_cut (s : Bytes) : literal (Database.escape s) = some (.blob (Database.cut s)) := by
  rw [Database.escape_eq, literal_escape]

/-- **Exactly the strings whose size is an `int` are written whole.** -/
lemma Database.cut_eq_self_iff {s : Bytes} : Database.cut s = s ↔ s.length < 2 ^ 31 := by
  constructor
  · intro h
    have hlen := congrArg List.length h
    have hint := (isInt_toInt s.length).2
    rw [Database.cut_eq, List.length_take] at hlen
    omega
  · intro h
    rw [Database.cut_eq, toInt_eq (by omega) (by omega), Int.toNat_natCast, List.take_length]

/-- Two strings are written alike if the same is left of them. -/
lemma Database.escape_inj_iff {s t : Bytes} :
    Database.escape s = Database.escape t ↔ Database.cut s = Database.cut t := by
  constructor
  · intro h
    have hlit := congrArg literal h
    rw [literal_escape_cut, literal_escape_cut] at hlit
    exact Value.blob.inj (Option.some_inj.1 hlit)
  · intro h
    rw [Database.escape_eq, Database.escape_eq, h]

lemma literal_escape_iff {s : Bytes} : literal (Database.escape s) = some (.blob s) ↔ s.length < 2 ^ 31 := by
  rw [literal_escape_cut, Option.some_inj, Value.blob.injEq, Database.cut_eq_self_iff]

/-- A string of 2^31 bytes is written as the empty one. -/
lemma escape_of_length {s : Bytes} (h : s.length = 2 ^ 31) : Database.escape s = Database.escape [] := by
  have hint : toInt ((2 ^ 31 : ℕ) : ℤ) = -2 ^ 31 := by decide
  rw [Database.escape, h, hint]
  rfl

lemma sqlEscapeInt_eq {s : Bytes} (h : s.length < 2 ^ 30) : sqlEscapeInt s = some (sqlEscape s) := by
  rw [sqlEscapeInt, toInt_eq (by omega) (by omega), strHexInt, if_neg (by omega), Int.toNat_natCast, List.take_length]
  rfl

/-! ### Back from the digits -/

/-- The value of a digit as an `int`, -1 for another character. -/
def charUnHex (cDigit : UInt8) : BitVec 32 :=
  if 48 ≤ cDigit ∧ cDigit ≤ 57 then (cDigit - 48).toBitVec.setWidth 32
  else if 65 ≤ cDigit ∧ cDigit ≤ 70 then (cDigit - 65 + 10).toBitVec.setWidth 32
  else if 97 ≤ cDigit ∧ cDigit ≤ 102 then (cDigit - 97 + 10).toBitVec.setWidth 32
  else -1

/-- The loop of `strUnHex`. -/
def unHexPairs : Bytes → Bytes
  | high :: low :: cs => UInt8.ofBitVec ((charUnHex high <<< 4 ||| charUnHex low).setWidth 8) :: unHexPairs cs
  | _ => []

/-- `strUnHex`, with `int iBytes`; `none` where the result cannot be resized, or `i * 2` is no `int`. -/
def strUnHex (strSrc : Bytes) : Option Bytes :=
  let iBytes := toInt (strSrc.length / 2 : ℕ)
  if iBytes < 0 ∨ 2 ^ 30 < iBytes then none else some (unHexPairs (strSrc.take (2 * iBytes.toNat)))

lemma unHexPairs_strHex (s : Bytes) : unHexPairs (strHex s) = s := by
  have hpair : ∀ c : UInt8, UInt8.ofBitVec
      ((charUnHex (charHex (c >>> 4)) <<< 4 ||| charUnHex (charHex (c &&& 15))).setWidth 8) = c := by
    refine forall_byte ?_
    decide +kernel
  induction s with
  | nil => rfl
  | cons c s ih =>
    rw [strHex, List.flatMap_cons, ← strHex]
    simp only [List.cons_append, List.nil_append, unHexPairs, hpair, ih]

lemma length_strHex (s : Bytes) : (strHex s).length = 2 * s.length := by
  induction s with
  | nil => rfl
  | cons b s ih =>
    rw [strHex, List.flatMap_cons, ← strHex, List.length_append, ih]
    simp
    omega

lemma strUnHex_strHex {s : Bytes} (h : s.length < 2 ^ 30) : strUnHex (strHex s) = some s := by
  have hhalf : (strHex s).length / 2 = s.length := by
    rw [length_strHex]
    omega
  have hint : toInt (s.length : ℕ) = s.length := toInt_eq (by omega) (by omega)
  rw [strUnHex]
  simp only [hhalf, hint]
  rw [if_neg (by omega), Int.toNat_natCast, ← length_strHex, List.take_length, unHexPairs_strHex]

/-- `0` to `9` and `A` to `F`. -/
def IsUpperHex (c : UInt8) : Prop := 48 ≤ c ∧ c ≤ 57 ∨ 65 ≤ c ∧ c ≤ 70

lemma isUpperHex_charHex {d : UInt8} (h : d < 16) : IsUpperHex (charHex d) := by
  unfold charHex IsUpperHex
  simp only [UInt8.lt_iff_toNat_lt, UInt8.le_iff_toNat_le, UInt8.reduceToNat] at h ⊢
  split_ifs with hd
  · left
    simp only [UInt8.toNat_add, UInt8.reduceToNat]
    omega
  · right
    simp only [UInt8.toNat_add, UInt8.toNat_sub, UInt8.reduceToNat]
    omega

lemma isUpperHex_of_mem {s : Bytes} {c : UInt8} (h : c ∈ strHex s) : IsUpperHex c := by
  obtain ⟨b, -, hc⟩ := List.mem_flatMap.1 h
  obtain rfl | rfl := List.mem_pair.1 hc
  · have hb := b.toNat_lt
    have hlt : b >>> 4 < 16 := by
      rw [UInt8.lt_iff_toNat_lt, UInt8.toNat_shiftRight]
      simp only [UInt8.reduceToNat, Nat.shiftRight_eq_div_pow, Nat.reduceMod, Nat.reducePow]
      omega
    exact isUpperHex_charHex hlt
  · have hlt : b &&& 15 < 16 := by
      rw [UInt8.lt_iff_toNat_lt, UInt8.toNat_and]
      exact Nat.lt_succ_of_le Nat.and_le_right
    exact isUpperHex_charHex hlt

/-- Both encoders write `X'…'` around the same digits, which are those of the string. -/
def EncodersAgree (s : Bytes) : Prop :=
  sqlEscapeInt s = some (Database.escape s) ∧
  ∃ hex, Database.escape s = cString "X'" ++ hex ++ cString "'" ∧ (∀ c ∈ hex, IsUpperHex c) ∧ strUnHex hex = some s

lemma escape_eq_sqlEscape (s : Bytes) : Database.escape s = sqlEscape (Database.cut s) := by
  rw [Database.escape_eq, SqliteDatabase.escape, flatMap_hex02X]
  rfl

lemma encodersAgree_iff {s : Bytes} : EncodersAgree s ↔ s.length < 2 ^ 30 := by
  constructor
  · rintro ⟨hsql, hex, hescape, -, hback⟩
    -- `sqlEscape` has not thrown, so what the other one sees is short enough to be read back.
    have hsize : toInt s.length < 2 ^ 30 := by
      by_contra hlong
      rw [sqlEscapeInt, strHexInt, if_pos (Or.inr (by omega))] at hsql
      cases hsql
    have hshort : (Database.cut s).length < 2 ^ 30 := by
      rw [Database.cut_eq, List.length_take]
      omega
    have hdigits : hex = strHex (Database.cut s) := by
      rw [escape_eq_sqlEscape] at hescape
      exact (List.append_cancel_left (List.append_cancel_right hescape)).symm
    rw [hdigits, strUnHex_strHex hshort, Option.some_inj] at hback
    rwa [hback] at hshort
  · intro h
    have hescape : Database.escape s = sqlEscape s := by
      rw [escape_eq_sqlEscape, Database.cut_eq_self_iff.2 (by omega)]
    exact ⟨hescape ▸ sqlEscapeInt_eq h, strHex s, hescape, fun c hc => isUpperHex_of_mem hc, strUnHex_strHex h⟩

lemma literal_quoted {s : Bytes} (h : 39 ∉ s) : literal (quoted s) = some (.text s) := literal_text h

end Newcoin
