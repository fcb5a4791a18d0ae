import Newcoin.BaseUInt.Hex
import Newcoin.Lib.Counter

/-!
# `++` and `--`

The operators change the words `pn[i]`, which the host reads in its own byte order, the last word first.
By the number of the words (`counter`) they count, whatever the order: `counts_increment`.  By the number
of the bytes (`toNat`), which `GetHex` prints and `compare` orders by, they do so on a big-endian host
(`toNat_increment_bigEndian`); a little-endian one reads the words the other way round
(`increment_eq_iff`, `decrement_eq_iff`, `lt_increment_iff`).
-/

namespace Newcoin

open Lib

/-! ### Words in memory -/

/-- In which order a host keeps the bytes of a word. -/
inductive HostOrder
  | littleEndian
  | bigEndian
  deriving DecidableEq, Repr

namespace HostOrder

/-- The bytes of a word, the most significant first, as they lie in memory; and back. -/
def arrange : HostOrder → Bytes → Bytes
  | littleEndian, bs => bs.reverse
  | bigEndian, bs => bs

variable (h : HostOrder)

/-- The word in these bytes of memory. -/
def load (w : ℕ) (bs : Bytes) : BitVec w := BitVec.ofNat w (beNat (h.arrange bs))

/-- The `n` bytes of memory that a word is in. -/
def store {w : ℕ} (n : ℕ) (x : BitVec w) : Bytes := h.arrange (beBytes n x.toNat)

/-- `htobe64`: the word whose bytes lie in memory with the most significant first. -/
def htobe64 (value : BitVec 64) : BitVec 64 := h.load 64 (beBytes 8 value.toNat)

@[simp] lemma arrange_arrange (bs : Bytes) : h.arrange (h.arrange bs) = bs := by
  cases h with
  | littleEndian => exact List.reverse_reverse bs
  | bigEndian => rfl

@[simp] lemma length_arrange (bs : Bytes) : (h.arrange bs).length = bs.length := by
  cases h with
  | littleEndian => exact List.length_reverse
  | bigEndian => rfl

@[simp] lemma length_store {w : ℕ} (n : ℕ) (x : BitVec w) : (h.store n x).length = n := by
  simp [store]

lemma toNat_load {w n : ℕ} {bs : Bytes} (hw : 2 ^ w = 256 ^ n) (hbs : bs.length = n) :
    (h.load w bs).toNat = beNat (h.arrange bs) := by
  have hlt := beNat_lt (h.arrange bs)
  rw [length_arrange, hbs, ← hw] at hlt
  rw [load, BitVec.toNat_ofNat, Nat.mod_eq_of_lt hlt]

lemma store_load {w n : ℕ} {bs : Bytes} (hw : 2 ^ w = 256 ^ n) (hbs : bs.length = n) :
    h.store n (h.load w bs) = bs := by
  have hlen : (h.arrange bs).length = n := (h.length_arrange bs).trans hbs
  rw [store, h.toNat_load hw hbs]
  conv_lhs => rw [← hlen]
  rw [beBytes_beNat, arrange_arrange]

lemma load_store {w n : ℕ} (hw : 2 ^ w = 256 ^ n) (x : BitVec w) : h.load w (h.store n x) = x := by
  apply BitVec.eq_of_toNat_eq
  rw [h.toNat_load hw (h.length_store n x), store, arrange_arrange, beNat_beBytes, ← hw, Nat.mod_eq_of_lt x.isLt]

lemma store_htobe64 (value : BitVec 64) : h.store 8 (h.htobe64 value) = beBytes 8 value.toNat :=
  h.store_load (by norm_num) (length_beBytes 8 _)

end HostOrder

namespace BaseUInt

/-- The words `pn[0], pn[1], …` of these bytes. -/
def words (h : HostOrder) : Bytes → List (BitVec 32)
  | b0 :: b1 :: b2 :: b3 :: bs => h.load 32 [b0, b1, b2, b3] :: words h bs
  | _ => []

/-- The bytes of words. -/
def wordBytes (h : HostOrder) (pn : List (BitVec 32)) : Bytes := pn.flatMap (h.store 4)

variable (h : HostOrder) {BITS W : ℕ}

@[simp] lemma length_wordBytes (pn : List (BitVec 32)) : (wordBytes h pn).length = 4 * pn.length := by
  induction pn with
  | nil => rfl
  | cons x pn ih =>
    rw [wordBytes, List.flatMap_cons, ← wordBytes, List.length_append, ih, h.length_store, List.length_cons]
    omega

lemma words_wordBytes (pn : List (BitVec 32)) : words h (wordBytes h pn) = pn := by
  induction pn with
  | nil => rfl
  | cons x pn ih =>
    obtain ⟨b0, b1, b2, b3, hx⟩ : ∃ b0 b1 b2 b3, h.store 4 x = [b0, b1, b2, b3] :=
      List.length_eq_four.1 (h.length_store 4 x)
    rw [wordBytes, List.flatMap_cons, ← wordBytes, hx]
    simp only [List.cons_append, List.nil_append, words, ih]
    rw [← hx, h.load_store (by norm_num)]

lemma wordBytes_words {bs : Bytes} (hbs : bs.length = 4 * W) :
    wordBytes h (words h bs) = bs ∧ (words h bs).length = W := by
  induction W generalizing bs with
  | zero =>
    rw [List.length_eq_zero_iff.1 hbs]
    exact ⟨rfl, rfl⟩
  | succ W ih =>
    match bs, hbs with
    | b0 :: b1 :: b2 :: b3 :: bs, hbs =>
      have hlen : bs.length = 4 * W := by simpa [Nat.mul_succ] using hbs
      obtain ⟨hbytes, hwords⟩ := ih hlen
      have hword : h.store 4 (h.load 32 [b0, b1, b2, b3]) = [b0, b1, b2, b3] := h.store_load (by norm_num) rfl
      constructor
      · rw [words, wordBytes, List.flatMap_cons, ← wordBytes, hbytes, hword]
        rfl
      · rw [words, List.length_cons, hwords]

/-! ### The operators -/

/-- `for (int i = …; ++pn[i] == 0 && i; i--)`, from word `i` on; `f` is the step and `again` what it is
compared with. -/
def countFrom (f : BitVec 32 → BitVec 32) (again : BitVec 32) : ℕ → List (BitVec 32) → List (BitVec 32)
  | 0, pn => pn.modify 0 f
  | i + 1, pn =>
    let pn := pn.modify (i + 1) f
    if pn[i + 1]? = some again then countFrom f again i pn else pn

/-- `++a`. -/
def increment (a : BaseUInt BITS) : BaseUInt BITS :=
  ofBytes BITS (wordBytes h (countFrom (· + 1) 0 (BITS / 32 - 1) (words h a.bytes)))

/-- `--a`. -/
def decrement (a : BaseUInt BITS) : BaseUInt BITS :=
  ofBytes BITS (wordBytes h (countFrom (· - 1) (BitVec.allOnes 32) (BITS / 32 - 1) (words h a.bytes)))

/-- `a++`: what it returns, and `a` after it. -/
def postIncrement (a : BaseUInt BITS) : BaseUInt BITS × BaseUInt BITS :=
  let ret := a
  (ret, increment h a)

/-- `a--`. -/
def postDecrement (a : BaseUInt BITS) : BaseUInt BITS × BaseUInt BITS :=
  let ret := a
  (ret, decrement h a)

/-- `operator=(uint64 b)`; the value before does not matter. -/
def assign (BITS : ℕ) (b : BitVec 64) : BaseUInt BITS :=
  ofBytes BITS ((zero BITS).bytes.take (BITS / 8 - 8) ++ h.store 8 (h.htobe64 b))

lemma modify_at {α : Type} (f : α → α) (pre post : List α) (x : α) :
    (pre ++ x :: post).modify pre.length f = pre ++ f x :: post :=
  List.modifyTailIdx_add (List.modifyHead f) 0 pre (x :: post)

/-- The loop is a ripple through the words before and at `i`, the last one first. -/
lemma countFrom_eq (f : BitVec 32 → BitVec 32) (again : BitVec 32) (pre post : List (BitVec 32)) (x : BitVec 32) :
    countFrom f again pre.length (pre ++ x :: post) = (ripple f again (x :: pre.reverse)).reverse ++ post := by
  induction pre using List.reverseRecOn generalizing x post with
  | nil =>
    rw [List.length_nil, countFrom, ripple]
    split_ifs <;> simp [ripple]
  | append_singleton pre y ih =>
    have hmod := modify_at f (pre ++ [y]) post x
    have hget : (pre ++ [y] ++ f x :: post)[pre.length + 1]? = some (f x) := by simp
    rw [List.length_append, List.length_singleton] at hmod ⊢
    rw [countFrom, ripple]
    simp only [hmod, hget, Option.some.injEq]
    split_ifs with h
    · rw [List.append_assoc, List.singleton_append, ih]
      simp
    · simp

lemma countFrom_last (f : BitVec 32 → BitVec 32) (again : BitVec 32) {pn : List (BitVec 32)}
    (hpn : pn.length = W + 1) : countFrom f again W pn = (ripple f again pn.reverse).reverse := by
  obtain ⟨pre, x, rfl⟩ := List.eq_nil_or_concat' pn |>.resolve_left (List.ne_nil_of_length_eq_add_one hpn)
  have hpre : pre.length = W := by simpa using hpn
  rw [← hpre, countFrom_eq, List.append_nil, List.reverse_append]
  rfl

/-! ### One counter -/

/-- The words, the last one first. -/
def digits (a : BaseUInt BITS) : List (BitVec 32) := (words h a.bytes).reverse

/-- The number that the words are. -/
def counter (a : BaseUInt BITS) : ℕ := bitsVal (digits h a)

lemma size_words (a : BaseUInt (32 * (W + 1))) : a.bytes.length = 4 * (W + 1) := by
  have hsize := a.size
  omega

lemma length_digits (a : BaseUInt (32 * (W + 1))) : (digits h a).length = W + 1 := by
  rw [digits, List.length_reverse]
  exact (wordBytes_words h (size_words a)).2

lemma digits_inj {a b : BaseUInt (32 * (W + 1))} (hab : digits h a = digits h b) : a = b := by
  apply ext
  rw [← (wordBytes_words h (size_words a)).1, ← (wordBytes_words h (size_words b)).1, List.reverse_inj.1 hab]

lemma digits_ofBytes {pn : List (BitVec 32)} (hpn : pn.length = W + 1) :
    digits h (ofBytes (32 * (W + 1)) (wordBytes h pn)) = pn.reverse := by
  have hsize : (wordBytes h pn).length = 32 * (W + 1) / 8 := by
    rw [length_wordBytes, hpn]
    omega
  rw [digits, bytes_ofBytes hsize, words_wordBytes]

lemma digits_increment (a : BaseUInt (32 * (W + 1))) :
    digits h (increment h a) = ripple (· + 1) 0 (digits h a) := by
  have hlen := (wordBytes_words h (size_words a)).2
  rw [increment, show 32 * (W + 1) / 32 - 1 = W by omega, countFrom_last _ _ hlen, digits_ofBytes]
  · rw [List.reverse_reverse, digits]
  · simpa using hlen

lemma digits_decrement (a : BaseUInt (32 * (W + 1))) :
    digits h (decrement h a) = ripple (· - 1) (BitVec.allOnes 32) (digits h a) := by
  have hlen := (wordBytes_words h (size_words a)).2
  rw [decrement, show 32 * (W + 1) / 32 - 1 = W by omega, countFrom_last _ _ hlen, digits_ofBytes]
  · rw [List.reverse_reverse, digits]
  · simpa using hlen

/-- **The words count**, in either order of their bytes. -/
theorem counts_increment : Counts (2 ^ (32 * (W + 1))) (counter h) (@increment h (32 * (W + 1))) where
  lt a := by
    have hlt := bitsVal_lt (digits h a)
    rwa [length_digits, ← pow_mul] at hlt
  inj a b hab := digits_inj h (bitsVal_inj ((length_digits h a).trans (length_digits h b).symm) hab)
  step a := by rw [counter, digits_increment, bitsVal_increment, length_digits, ← pow_mul, counter]

theorem countsDown_decrement :
    CountsDown (2 ^ (32 * (W + 1))) (counter h) (@decrement h (32 * (W + 1))) := by
  intro a
  rw [counter, digits_decrement, bitsVal_decrement, length_digits, ← pow_mul, counter]

/-- **Increment and decrement undo each other**, and increments alone go through every value. -/
theorem increment_decrement_undo (a : BaseUInt (32 * (W + 1))) :
    decrement h (increment h a) = a ∧ increment h (decrement h a) = a ∧
    postIncrement h a = (a, increment h a) ∧ postDecrement h a = (a, decrement h a) ∧
    (∀ b, ∃! k, k < 2 ^ (32 * (W + 1)) ∧ (increment h)^[k] a = b) ∧
    (increment h)^[2 ^ (32 * (W + 1))] a = a := by
  have hup := @counts_increment h W
  have hdown := @countsDown_decrement h W
  exact ⟨hdown.undo hup a, hdown.redo hup a, rfl, rfl, hup.existsUnique a, hup.cycle a⟩

/-! ### The number of the bytes -/

/-- The number that the bytes of a word are, the most significant first. -/
def byteVal (x : BitVec 32) : ℕ := beNat (h.store 4 x)

lemma beNat_wordBytes (pn : List (BitVec 32)) :
    beNat (wordBytes h pn) = wordsVal (2 ^ 32) (byteVal h) pn.reverse := by
  induction pn using List.reverseRecOn with
  | nil => rfl
  | append_singleton pn x ih =>
    have hone : wordBytes h [x] = h.store 4 x := List.append_nil _
    rw [wordBytes, List.flatMap_append, ← wordBytes, ← wordBytes, hone, beNat_append, h.length_store, ih,
      List.reverse_append, List.reverse_singleton, List.singleton_append, wordsVal_cons, byteVal]
    ring

lemma toNat_eq_wordsVal (a : BaseUInt (32 * (W + 1))) :
    a.toNat = wordsVal (2 ^ 32) (byteVal h) (digits h a) := by
  rw [digits, ← beNat_wordBytes, (wordBytes_words h (size_words a)).1, toNat]

lemma byteVal_bigEndian : byteVal .bigEndian = BitVec.toNat := by
  funext x
  have hx := x.isLt
  rw [byteVal, HostOrder.store, HostOrder.arrange, beNat_beBytes, Nat.mod_eq_of_lt (by omega)]

lemma byteVal_littleEndian (x : BitVec 32) : byteVal .littleEndian x =
    x.toNat % 256 * 256 ^ 3 + x.toNat / 256 % 256 * 256 ^ 2 + x.toNat / 256 ^ 2 % 256 * 256 +
      x.toNat / 256 ^ 3 % 256 := by
  simp only [byteVal, HostOrder.store, HostOrder.arrange, beBytes, beNat, List.reverse_reverse, List.map_cons,
    List.map_nil, Nat.ofDigits_cons, Nat.ofDigits_nil, UInt8.toNat_ofNat', pow_zero, Nat.div_one, pow_one]
  ring

lemma skewed_littleEndian : Skewed (byteVal .littleEndian) where
  lt x := by
    rw [byteVal_littleEndian]
    omega
  zero x := by
    have hx := x.isLt
    rw [byteVal_littleEndian, ← BitVec.toNat_inj, BitVec.ofNat_eq_ofNat, BitVec.toNat_ofNat, Nat.zero_mod]
    omega
  max x := by
    have hx := x.isLt
    rw [byteVal_littleEndian, add_one_eq_zero_iff]
    omega
  step x h := by
    have hx := (x + 1).isLt
    have hstep := toNat_add_one h
    rw [byteVal_littleEndian, byteVal_littleEndian, hstep]
    rw [hstep] at hx
    omega

/-- On a big-endian host the bytes count too. -/
theorem toNat_increment_bigEndian (a : BaseUInt (32 * (W + 1))) :
    (increment .bigEndian a).toNat = (a.toNat + 1) % 2 ^ (32 * (W + 1)) := by
  have hcounter (b : BaseUInt (32 * (W + 1))) : b.toNat = counter .bigEndian b := by
    rw [toNat_eq_wordsVal .bigEndian, byteVal_bigEndian, counter, bitsVal]
  rw [hcounter, hcounter]
  exact (counts_increment .bigEndian).step a

/-- The word in which `++a` comes to an end: the last one with a bit clear. -/
def stopWord (a : BaseUInt BITS) : Option (BitVec 32) := (digits h a).find? (· + 1 != 0)

lemma increment_eq_iff (a : BaseUInt (32 * (W + 1))) :
    (increment .littleEndian a).toNat = (a.toNat + 1) % 2 ^ (32 * (W + 1)) ↔ a.toNat = 2 ^ (32 * (W + 1)) - 1 := by
  have hiff := skewed_littleEndian.increment_eq_iff (digits .littleEndian a)
  have hpos : 0 < 2 ^ (32 * (W + 1)) := by positivity
  rw [length_digits, ← pow_mul, ← digits_increment, ← toNat_eq_wordsVal, ← toNat_eq_wordsVal] at hiff
  rw [hiff]
  omega

lemma decrement_eq_iff (a : BaseUInt (32 * (W + 1))) :
    (decrement .littleEndian a).toNat = (a.toNat + (2 ^ (32 * (W + 1)) - 1)) % 2 ^ (32 * (W + 1)) ↔
      a.toNat = 0 := by
  have hiff := skewed_littleEndian.decrement_eq_iff (digits .littleEndian a)
  rwa [length_digits, ← pow_mul, ← digits_decrement, ← toNat_eq_wordsVal, ← toNat_eq_wordsVal] at hiff

lemma lt_increment_iff (a : BaseUInt (32 * (W + 1))) :
    compare a (increment .littleEndian a) < 0 ↔ ∃ x, stopWord .littleEndian a = some x ∧ x.toNat % 256 ≠ 255 := by
  have hiff := skewed_littleEndian.lt_increment_iff (digits .littleEndian a)
  rw [← digits_increment, ← toNat_eq_wordsVal, ← toNat_eq_wordsVal] at hiff
  rw [compare_lt_zero_iff, hiff]
  refine exists_congr fun x => and_congr_right fun hx => ?_
  have hne : x + 1 ≠ 0 := by simpa using List.find?_some hx
  have hlt := (x + 1).isLt
  have hstep := toNat_add_one hne
  rw [byteVal_littleEndian, byteVal_littleEndian, hstep]
  rw [hstep] at hlt
  omega

lemma toNat_assign (b : BitVec 64) : (assign h (32 * (W + 2)) b).toNat = b.toNat := by
  have hb : b.toNat < 256 ^ 8 := b.isLt
  have hlen : min (32 * (W + 2) / 8 - 8) (32 * (W + 2) / 8) + (beBytes 8 b.toNat).length = 32 * (W + 2) / 8 := by
    rw [length_beBytes]
    omega
  rw [assign, h.store_htobe64, zero, List.take_replicate, toNat_ofBytes_zeros hlen, beNat_beBytes, Nat.mod_eq_of_lt hb]

lemma increment_assign_ne (hB : BITS = 32 * (W + 2)) {n : ℕ} (hn : n < 2 ^ 64 - 1) :
    assign .littleEndian BITS (BitVec.ofNat 64 (n + 1)) ≠
      increment .littleEndian (assign .littleEndian BITS (BitVec.ofNat 64 n)) := by
  subst hB
  intro heq
  have hval (m : ℕ) (hm : m < 2 ^ 64) : (assign .littleEndian (32 * (W + 2)) (BitVec.ofNat 64 m)).toNat = m := by
    rw [toNat_assign, BitVec.toNat_ofNat, Nat.mod_eq_of_lt hm]
  have hwidth : 2 ^ 64 ≤ 2 ^ (32 * (W + 1 + 1)) := Nat.pow_le_pow_right (by omega) (by omega)
  have hmax := (increment_eq_iff (assign .littleEndian (32 * (W + 2)) (BitVec.ofNat 64 n))).1
  rw [← heq, hval _ (by omega), hval _ (by omega), Nat.mod_eq_of_lt (by omega)] at hmax
  have hn' := hmax rfl
  omega

/-- **On a little-endian host the operators do not count**: `++` adds one to the largest value alone and
`--` takes one from zero alone; the value grows where the first byte of the word that `++` stops in does. -/
theorem increment_counts_iff (a : BaseUInt (32 * (W + 1))) :
    ((increment .littleEndian a).toNat = (a.toNat + 1) % 2 ^ (32 * (W + 1)) ↔ a.toNat = 2 ^ (32 * (W + 1)) - 1) ∧
    ((decrement .littleEndian a).toNat = (a.toNat + (2 ^ (32 * (W + 1)) - 1)) % 2 ^ (32 * (W + 1)) ↔
      a.toNat = 0) ∧
    ((a.toNat ≠ 2 ^ (32 * (W + 1)) - 1 → compare a (increment .littleEndian a) < 0) ↔
      a.toNat = 2 ^ (32 * (W + 1)) - 1 ∨ ∃ x, stopWord .littleEndian a = some x ∧ x.toNat % 256 ≠ 255) ∧
    ∀ n : ℕ, n < 2 ^ 64 - 1 →
      assign .littleEndian 256 (BitVec.ofNat 64 (n + 1)) ≠
        increment .littleEndian (assign .littleEndian 256 (BitVec.ofNat 64 n)) := by
  refine ⟨increment_eq_iff a, decrement_eq_iff a, ?_, fun n hn h => ?_⟩
  · rw [lt_increment_iff]
    exact or_iff_not_imp_left.symm
  · exact increment_assign_ne (show 256 = 32 * (6 + 2) from rfl) hn h

/-- Zero becomes 2^24, one does not become zero, and 0xff000000 becomes less. -/
theorem increment_zero_ne : (increment .littleEndian (assign .littleEndian 256 0)).GetHex =
      cString "0000000000000000000000000000000000000000000000000000000001000000" ∧
    (increment .littleEndian (assign .littleEndian 256 0)).toNat ≠
      ((assign .littleEndian 256 0).toNat + 1) % 2 ^ 256 ∧
    increment .littleEndian (assign .littleEndian 256 0) ≠ assign .littleEndian 256 1 ∧
    (decrement .littleEndian (assign .littleEndian 256 1)).toNat ≠ 0 ∧
    compare (assign .littleEndian 256 0xff000000)
      (increment .littleEndian (assign .littleEndian 256 0xff000000)) = 1 := by
  decide +kernel

end BaseUInt

end Newcoin
