import Newcoin.Strings
import Newcoin.Lib.BinarySearch
import Newcoin.Lib.BitString
import Newcoin.Rfc1751.Dict

/-!
# RFC 1751: keys as English words

A `char` array is a memory `ℕ → UInt8`.  What stands past its end is a parameter of every function
that may look there: `stale start length` is the memory while `extract` is asked for the `length` bits
from `start` on, so that it may change from one call to the next.  Asserts do nothing.
-/

namespace Newcoin.Rfc1751

open Lib

/-- The memory past the end of an array, at each call of `extract`. -/
abbrev Stale := ℕ → ℕ → ℕ → UInt8

/-- An array of `n` characters, and what follows it. -/
def within (n : ℕ) (s stale : ℕ → UInt8) : ℕ → UInt8 := fun k => if k < n then s k else stale k

def extract (s : ℕ → UInt8) (start length : ℕ) : ℕ :=
  let cl := (s (start / 8)).toNat
  let cc := (s (start / 8 + 1)).toNat
  let cr := (s (start / 8 + 2)).toNat
  ((cl <<< 8 ||| cc) <<< 8 ||| cr) >>> (24 - (length + start % 8)) &&& 0xffff >>> (16 - length)

/-- `for (p = 0, i = 0; i < 64; i += 2) p += extract(s, i, 2)` over an array of `n` characters. -/
def parity (n : ℕ) (s : ℕ → UInt8) (stale : Stale) : ℕ :=
  ((List.range 32).map fun k => extract (within n s (stale (2 * k) 2)) (2 * k) 2).sum

/-- The ninth character is not set while the first loop runs.  `c_str()` has a zero after the data. -/
def btoe (stale : Stale) (strData : Bytes) : Except Fault Bytes :=
  if strData.length + 1 < 8 then .error .outOfBounds
  else
    let data : ℕ → UInt8 := fun k => strData.getD k 0
    let p := parity 8 data stale
    let caBuffer := Function.update data 8 (toUChar (p <<< 6 : ℕ))
    let word start := pcWord (extract (within 9 caBuffer (stale start 11)) start 11)
    .ok (word 0 ++ [32] ++ word 11 ++ [32] ++ word 22 ++ [32] ++ word 33 ++ [32] ++ word 44 ++ [32] ++
      word 55)

def insert (s : ℕ → UInt8) (x start length : ℕ) : ℕ → UInt8 :=
  let shift := (8 - (start + length) % 8) % 8
  let y := x <<< shift
  let cl := UInt8.ofNat (y >>> 16 &&& 0xff)
  let cc := UInt8.ofNat (y >>> 8 &&& 0xff)
  let cr := UInt8.ofNat (y &&& 0xff)
  if shift + length > 16 then
    orByte (orByte (orByte s (start / 8) cl) (start / 8 + 1) cc) (start / 8 + 2) cr
  else if shift + length > 8 then
    orByte (orByte s (start / 8) cc) (start / 8 + 1) cr
  else orByte s (start / 8) cr

/-- The loop changes a copy of each letter (`for (char cLetter : strWord)`): the word stays. -/
def standard (strWord : Bytes) : Bytes := strWord

/-- Binary search of dictionary, from bounds in order, which is how it is called. -/
def wsrch (strWord : Bytes) (iMin iMax : ℕ) : ℤ :=
  match search (probe (charCodes strWord) fun iMid => charCodes (pcWord iMid)) iMin iMax with
  | some iMid => iMid
  | none => -1

/-- The words, put into `b` from bit `p` on; or what `etob` returns on a word it cannot use. -/
def etobWords (b : ℕ → UInt8) (p : ℕ) : List Bytes → Except ℤ (ℕ → UInt8)
  | [] => .ok b
  | strWord :: vsHuman =>
    let l := toInt strWord.length
    if l > 4 ∨ l < 1 then .error (-1)
    else
      let v := wsrch (standard strWord) (if l < 4 then 0 else 571) (if l < 4 then 570 else 2048)
      if v < 0 then .error 0
      else etobWords (insert b v.toNat p 11) (p + 11) vsHuman

/-- Convert 6 words to binary: the code returned, and `strData`. -/
def etob (stale : Stale) (strData : Bytes) (vsHuman : List Bytes) : ℤ × Bytes :=
  if 6 ≠ vsHuman.length then (-1, strData)
  else
    match etobWords (fun _ => 0) 0 vsHuman with
    | .error rc => (rc, strData)
    | .ok b =>
      if parity 9 b stale &&& 3 ≠ extract (within 9 b (stale 64 2)) 64 2 then (-2, strData)
      else (1, (List.range 8).map b)

/-- `eng2key`: the code returned, and `strKey`. -/
def eng2key (stale₁ stale₂ : Stale) (strKey strHuman : Bytes) : ℤ × Bytes :=
  let vWords := splitSpace (trim strHuman)
  if 12 ≠ vWords.length then (-1, strKey)
  else
    let first := etob stale₁ [] (vWords.take 6)
    if first.1 ≠ 1 then (first.1, strKey)
    else
      let second := etob stale₂ [] ((vWords.drop 6).take 6)
      if second.1 ≠ 1 then (second.1, strKey) else (1, first.2 ++ second.2)

def key2eng (stale₁ stale₂ : Stale) (strKey : Bytes) : Except Fault Bytes := do
  let strFirst ← btoe stale₁ (← substr strKey 0 8)
  let strSecond ← btoe stale₂ (← substr strKey 8 8)
  return strFirst ++ [32] ++ strSecond

end Newcoin.Rfc1751
