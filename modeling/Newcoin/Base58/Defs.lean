import Newcoin.BaseUInt
import Newcoin.Strings
import Newcoin.Lib.BigEndian
import Mathlib.Data.Nat.Digits.Defs

/-!
# Base-58 strings

A `CBigNum` is an integer.  The MPI format of OpenSSL is a length in four bytes, then sign and
magnitude, most significant byte first: the first bit of the magnitude bytes is the sign.
A C string is the list of its characters up to the terminating zero.
-/

namespace Newcoin

open Lib

/-! ### Big numbers -/

/-- `BN_mpi2bn` of a number whose length is right, as `setvch` writes it. -/
def BN_mpi2bn (d : Bytes) : ℤ :=
  match d.drop 4 with
  | [] => 0
  | b :: bs => if b ≥ 0x80 then -(beNat ((b &&& 0x7f) :: bs) : ℤ) else beNat (b :: bs)

/-- The bytes of a magnitude, most significant first, none of the leading ones zero. -/
def magnitude (n : ℕ) : Bytes := ((Nat.digits 256 n).map UInt8.ofNat).reverse

/-- `BN_bn2mpi`: a byte is put in front where the sign would fall on a bit that is set. -/
def BN_bn2mpi (bn : ℤ) : Bytes :=
  let mag := magnitude bn.natAbs
  let ext := if mag.head?.any (· ≥ 0x80) then 0 :: mag else mag
  let signed := if bn < 0 then ext.modifyHead (· ||| 0x80) else ext
  beBytes 4 signed.length ++ signed

namespace CBigNum

def setvch (vch : Bytes) : ℤ :=
  let nSize := vch.length
  let vch2 := beBytes 4 nSize ++ vch.reverse
  BN_mpi2bn vch2

def getvch (bn : ℤ) : Bytes :=
  let vch := BN_bn2mpi bn
  if vch.length < 4 then [] else (vch.drop 4).reverse

end CBigNum

/-! ### Encoding -/

def pszBase58 : Bytes := cString "ipshnaf39wBUDNEGHJKLM4PQRST7VWXYZ2bcdeCg65jkm8oFqr1tuvAxyz"

/-- `pszBase58[c]`. -/
def base58Char (c : ℕ) : UInt8 := pszBase58.getD c 0

/-- `while (bn > bn0)`: the characters of the digits, least significant first. -/
def encodeDigits (bn : ℤ) : Bytes :=
  if bn > 0 then base58Char (bn.tmod 58).toNat :: encodeDigits (bn.tdiv 58) else []
termination_by bn.toNat
decreasing_by
  rw [Int.tdiv_eq_ediv_of_nonneg (by omega)]
  omega

def EncodeBase58 (vch : Bytes) : Bytes :=
  let vchTmp := vch.reverse ++ [0]
  let bn := CBigNum.setvch vchTmp
  let str := encodeDigits bn
  let zeros := (vch.takeWhile (· == 0)).length
  (str ++ List.replicate zeros (base58Char 0)).reverse

/-! ### Decoding -/

/-- The loop over the string: the number, or `none` for `return false`. -/
def decodeDigits (bn : ℤ) : Bytes → Option ℤ
  | [] => some bn
  | p :: ps =>
    match pszBase58.idxOf? p with
    | none => if (p :: ps).dropWhile isSpace = [] then some bn else none
    | some bnChar => decodeDigits (bn * 58 + bnChar) ps

/-- `Trim off sign byte if present`. -/
def trimSign (vchTmp : Bytes) : Bytes :=
  if vchTmp.length ≥ 2 ∧ vchTmp.getD (vchTmp.length - 1) 0 = 0 ∧
      vchTmp.getD (vchTmp.length - 2) 0 ≥ 0x80 then vchTmp.dropLast
  else vchTmp

/-- `DecodeBase58(const char*, …)`: what it returns, and `vchRet`, which it clears first. -/
def DecodeBase58CStr (psz : Bytes) : Bool × Bytes :=
  let psz := psz.dropWhile isSpace
  match decodeDigits 0 psz with
  | none => (false, [])
  | some bn =>
    let vchTmp := trimSign (CBigNum.getvch bn)
    let nLeadingZeros := (psz.takeWhile (· == base58Char 0)).length
    (true, List.replicate nLeadingZeros 0 ++ vchTmp.reverse)

/-- `DecodeBase58(const std::string&, …)`: `c_str()` ends at the first zero. -/
def DecodeBase58 (str : Bytes) : Bool × Bytes := DecodeBase58CStr (str.takeWhile (· != 0))

/-! ### With a check -/

section Check

/- Double SHA-256. -/
variable (SHA256Hash : Bytes → BaseUInt 256)

def EncodeBase58Check (vchIn : Bytes) : Bytes :=
  let hash := SHA256Hash vchIn
  EncodeBase58 (vchIn ++ hash.bytes.take 4)

/-- `DecodeBase58Check(const char*, …)` of `str.c_str()`: what it returns, and `vchRet`. -/
def DecodeBase58Check (str : Bytes) : Bool × Bytes :=
  let r := DecodeBase58 str
  if !r.1 then (false, r.2)
  else if r.2.length < 4 then (false, [])
  else
    let vchRet := r.2.take (r.2.length - 4)
    let hash := SHA256Hash vchRet
    if hash.bytes.take 4 ≠ r.2.drop (r.2.length - 4) then (false, []) else (true, vchRet)

end Check

end Newcoin
