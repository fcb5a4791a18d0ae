import Newcoin.BaseUInt
import Newcoin.Escape
import Newcoin.Strings

/-!
# `GetHex` and `SetHex`

A `base_uint` as text.  What `GetHex` writes is read back (`SetHex_GetHex`).
-/

namespace Newcoin

open Lib.Sql

namespace BaseUInt

def GetHex {BITS : ℕ} (a : BaseUInt BITS) : Bytes := strHex a.bytes

/-- Two digits a byte; one that is left over is the high one. -/
def hexPairs : Bytes → Bytes
  | [] => []
  | [c] => [(hexDigit c).getD 0 <<< 4]
  | c :: d :: cs => ((hexDigit c).getD 0 <<< 4 ||| (hexDigit d).getD 0) :: hexPairs cs

/-- `SetHex` on a new `base_uint`, for a text of fewer than 2^32 digits: the last of them fill it from its
end. -/
def SetHex (BITS : ℕ) (psz : Bytes) : BaseUInt BITS :=
  let psz := psz.dropWhile isSpace
  let psz := if psz.head? = some 48 ∧ (psz.drop 1).head?.map toLower = some 120 then psz.drop 2 else psz
  let digits := psz.takeWhile fun c => (hexDigit c).isSome
  let out := hexPairs (digits.drop (digits.length - 2 * (BITS / 8)))
  ofBytes BITS (List.replicate (BITS / 8 - out.length) 0 ++ out)

lemma isSpace_of_hexDigit (c : UInt8) (h : (hexDigit c).isSome) : isSpace c = false ∧ toLower c ≠ 120 := by
  revert c
  refine forall_byte ?_
  decide +kernel

lemma hexDigit_of_mem {s : Bytes} {c : UInt8} (h : c ∈ strHex s) : (hexDigit c).isSome := by
  obtain ⟨b, -, hb⟩ := List.mem_flatMap.1 h
  obtain ⟨-, hh, hl, -⟩ := unhex_pair b
  simp only [List.mem_cons, List.not_mem_nil, or_false] at hb
  rcases hb with rfl | rfl
  · rw [hh]
    rfl
  · rw [hl]
    rfl

lemma hexPairs_strHex (s : Bytes) : hexPairs (strHex s) = s := by
  induction s with
  | nil => rfl
  | cons b s ih =>
    have hbyte : b >>> 4 <<< 4 ||| b &&& 15 = b := by
      revert b
      refine forall_byte ?_
      decide +kernel
    obtain ⟨-, hh, hl, -⟩ := unhex_pair b
    rw [strHex, List.flatMap_cons, ← strHex]
    simp only [List.cons_append, List.nil_append, hexPairs, hh, hl, Option.getD_some, hbyte, ih]

/-- **A checksum is read back** from its text. -/
theorem SetHex_GetHex {BITS : ℕ} (a : BaseUInt BITS) : SetHex BITS a.GetHex = a := by
  have hspace : (strHex a.bytes).dropWhile isSpace = strHex a.bytes := by
    cases hs : strHex a.bytes with
    | nil => rfl
    | cons c cs =>
      have hc := (isSpace_of_hexDigit c (hexDigit_of_mem (hs ▸ List.mem_cons_self))).1
      exact List.dropWhile_cons_of_neg (by simp [hc])
  have hprefix : ¬ ((strHex a.bytes).head? = some 48 ∧ ((strHex a.bytes).drop 1).head?.map toLower = some 120) := by
    rintro ⟨-, h⟩
    obtain ⟨c, hc, hlower⟩ := Option.map_eq_some_iff.1 h
    exact (isSpace_of_hexDigit c (hexDigit_of_mem (List.mem_of_mem_drop (List.mem_of_mem_head? hc)))).2 hlower
  have hdigits : (strHex a.bytes).takeWhile (fun c => (hexDigit c).isSome) = strHex a.bytes :=
    List.takeWhile_eq_self_iff.2 fun c hc => hexDigit_of_mem hc
  unfold SetHex GetHex
  simp only [hspace, if_neg hprefix, hdigits]
  rw [length_strHex, a.size, Nat.sub_self, List.drop_zero, hexPairs_strHex, a.size, Nat.sub_self, List.replicate_zero,
    List.nil_append]
  exact ofBytes_bytes a

end BaseUInt

end Newcoin
