import Newcoin.NewcoinAddress

/-!
# Which keys survive a trip through words

Each half of a key is 64 bits; with the two parity bits behind them, six groups of 11.

* `extract_eq_field`, `bitAt_insert` — reading and writing such a group, bit by bit.
* `wsrch_pcWord` — the search finds every word of the dictionary but number 570, the last of the short
  ones, which its range leaves out.
* `eng2key_phrase` — what becomes of the phrase of a key.
* `rfc1751_round_trip_iff` — keys and seeds come back exactly if no group of theirs is 570.
-/

namespace Newcoin.Rfc1751

open Lib

/-! ### Groups of bits -/

/-- What `extract` sees depends on the requested bits only. -/
theorem extract_eq_field (s : ℕ → UInt8) {start length : ℕ} (h : length ≤ 11) :
    extract s start length = field s start length :=
  three_bytes_eq_field s (by omega) (by omega)

lemma bitAt_within {n : ℕ} (s stale : ℕ → UInt8) {i : ℕ} (h : i < 8 * n) :
    bitAt (within n s stale) i = bitAt s i := by
  rw [bitAt, bitAt, within, if_pos (by omega)]

/-- Memory past the end of the array does not matter. -/
lemma extract_within {n : ℕ} (s stale : ℕ → UInt8) {start length : ℕ} (h : length ≤ 11)
    (hn : start + length ≤ 8 * n) : extract (within n s stale) start length = field s start length := by
  rw [extract_eq_field _ h]
  exact field_congr fun i _ hi => bitAt_within s stale (by omega)

lemma parity_eq {n : ℕ} (hn : 8 ≤ n) (s : ℕ → UInt8) (stale : Stale) :
    parity n s stale = ((List.range 32).map fun k => field s (2 * k) 2).sum := by
  unfold parity
  congr 1
  refine List.map_congr_left fun k hk => extract_within s _ (by omega) ?_
  have := List.mem_range.1 hk
  omega

lemma testBit_toByte (y : ℕ) {j : ℕ} (h : j < 8) (m : ℕ) :
    (UInt8.ofNat (y >>> m &&& 0xff)).toNat.testBit j = y.testBit (m + j) := by
  rw [UInt8.toNat_ofNat', Nat.testBit_mod_two_pow, Nat.testBit_and, Nat.testBit_shiftRight,
    show (0xff : ℕ) = 2 ^ 8 - 1 by norm_num, Nat.testBit_two_pow_sub_one]
  simp [h]

/-- The bit of the shifted value that goes to bit `i` of the memory. -/
lemma testBit_shifted {x start length shift m i : ℕ} (hx : x < 2 ^ length)
    (hm : m + i + 1 = start + length + shift) : (x <<< shift).testBit m =
      (decide (start ≤ i ∧ i < start + length) && x.testBit (start + length - 1 - i)) := by
  rw [Nat.testBit_shiftLeft]
  by_cases hlo : start ≤ i
  · by_cases hhi : i < start + length
    · rw [decide_eq_true (by omega), decide_eq_true (by omega : start ≤ i ∧ i < start + length),
        show m - shift = start + length - 1 - i by omega]
    · rw [decide_eq_false (by omega), decide_eq_false (by omega), Bool.false_and, Bool.false_and]
  · rw [decide_eq_false (by omega : ¬ (start ≤ i ∧ i < start + length)),
      Nat.testBit_lt_two_pow (hx.trans_le (Nat.pow_le_pow_right (by omega) (by omega)))]
    simp

/-- The bits of `x` are `|=`-ed into the place of the field, the others stay. -/
theorem bitAt_insert (s : ℕ → UInt8) {x start length : ℕ} (hx : x < 2 ^ length) (h0 : 0 < length)
    (h : length ≤ 11) (i : ℕ) :
    bitAt (insert s x start length) i =
      (bitAt s i || (decide (start ≤ i ∧ i < start + length) && x.testBit (start + length - 1 - i))) := by
  unfold insert
  extract_lets shift y cl cc cr
  have hs : shift = (8 - (start + length) % 8) % 8 := rfl
  have hj : 7 - i % 8 < 8 := by omega
  have hcl : cl.toNat.testBit (7 - i % 8) = y.testBit (16 + (7 - i % 8)) := testBit_toByte y hj 16
  have hcc : cc.toNat.testBit (7 - i % 8) = y.testBit (8 + (7 - i % 8)) := testBit_toByte y hj 8
  have hcr : cr.toNat.testBit (7 - i % 8) = y.testBit (7 - i % 8) := by
    have := testBit_toByte y hj 0
    rwa [Nat.shiftRight_zero, Nat.zero_add] at this
  have key : ∀ m, m + i + 1 = start + length + shift →
      y.testBit m = (decide (start ≤ i ∧ i < start + length) && x.testBit (start + length - 1 - i)) :=
    fun m hm => testBit_shifted hx hm
  -- Bytes that no bit of the field is in.
  have out : ¬ (start ≤ i ∧ i < start + length) →
      (decide (start ≤ i ∧ i < start + length) && x.testBit (start + length - 1 - i)) = false := fun hi => by
    rw [decide_eq_false hi, Bool.false_and]
  split_ifs with h1 h2
  · rw [bitAt_orByte, bitAt_orByte, bitAt_orByte, hcl, hcc, hcr]
    rcases (by omega : i / 8 = start / 8 ∨ i / 8 = start / 8 + 1 ∨ i / 8 = start / 8 + 2 ∨
      ¬ (start / 8 ≤ i / 8 ∧ i / 8 ≤ start / 8 + 2)) with e | e | e | e
    · simp [e, key (16 + (7 - i % 8)) (by omega)]
    · simp [e, key (8 + (7 - i % 8)) (by omega)]
    · simp [e, key (7 - i % 8) (by omega)]
    · rw [out (by omega)]
      simp [show i / 8 ≠ start / 8 by omega, show i / 8 ≠ start / 8 + 1 by omega,
        show i / 8 ≠ start / 8 + 2 by omega]
  · rw [bitAt_orByte, bitAt_orByte, hcc, hcr]
    rcases (by omega : i / 8 = start / 8 ∨ i / 8 = start / 8 + 1 ∨
      ¬ (start / 8 ≤ i / 8 ∧ i / 8 ≤ start / 8 + 1)) with e | e | e
    · simp [e, key (8 + (7 - i % 8)) (by omega)]
    · simp [e, key (7 - i % 8) (by omega)]
    · rw [out (by omega)]
      simp [show i / 8 ≠ start / 8 by omega, show i / 8 ≠ start / 8 + 1 by omega]
  · rw [bitAt_orByte, hcr]
    by_cases e : i / 8 = start / 8
    · simp [e, key (7 - i % 8) (by omega)]
    · rw [out (by omega)]
      simp [e]

/-! ### The dictionary search -/

lemma wsrch_eq {w : Bytes} {iMin iMax v : ℕ}
    (h : search (probe (charCodes w) fun i => charCodes (pcWord i)) iMin iMax = some v) :
    wsrch w iMin iMax = v := by
  rw [wsrch, h]

lemma wsrch_eq_neg_one {w : Bytes} {iMin iMax : ℕ}
    (h : ∀ v, search (probe (charCodes w) fun i => charCodes (pcWord i)) iMin iMax ≠ some v) :
    wsrch w iMin iMax = -1 := by
  rw [wsrch, Option.eq_none_iff_forall_ne_some.2 h]

/-- The ranges are `[0, 570)` and `[571, 2048)`. -/
theorem wsrch_pcWord {v : ℕ} (hv : v < 2048) :
    wsrch (pcWord v) (if toInt (pcWord v).length < 4 then 0 else 571)
      (if toInt (pcWord v).length < 4 then 570 else 2048) = if v = 570 then -1 else (v : ℤ) := by
  have hshort : ∀ j k : ℕ, 0 ≤ j → j < k → k < 570 → charCodes (pcWord j) < charCodes (pcWord k) :=
    fun j k _ hjk hk => pcWord_lt_short hjk (by omega)
  have hlong : ∀ j k : ℕ, 571 ≤ j → j < k → k < 2048 → charCodes (pcWord j) < charCodes (pcWord k) :=
    fun j k hj hjk hk => pcWord_lt_long hj hjk hk
  by_cases h : v < 571
  · obtain ⟨h1, h2⟩ := length_pcWord_short h
    rw [toInt_eq (by omega) (by omega), if_pos (by omega), if_pos (by omega)]
    split_ifs with h570
    · apply wsrch_eq_neg_one
      intro i hi
      obtain ⟨_, hlt, heq⟩ := (search_eq_some_iff hshort).1 hi
      exact (heq ▸ pcWord_lt_short (by omega) h).false
    · exact wsrch_eq (search_complete hshort (by omega) (by omega) rfl)
  · have h4 := length_pcWord_long (by omega) hv
    rw [toInt_eq (by omega) (by omega), if_neg (by omega), if_neg (by omega), if_neg (by omega)]
    exact wsrch_eq (search_complete hlong (by omega) (by omega) rfl)

lemma isWord_pcWord {v : ℕ} (hv : v < 2048) : IsWord (pcWord v) := by
  constructor
  · refine List.ne_nil_of_length_pos ?_
    by_cases h : v < 571
    · exact (length_pcWord_short h).1
    · rw [length_pcWord_long (by omega) hv]
      omega
  · intro c hc
    obtain ⟨h1, _⟩ := pcWord_letters hv c hc
    have h65 : 65 ≤ c.toNat := by simpa [UInt8.le_iff_toNat_le] using h1
    simp only [isSpace, Bool.or_eq_false_iff, Bool.and_eq_false_iff, decide_eq_false_iff_not,
      UInt8.le_iff_toNat_le, beq_eq_false_iff_ne, ne_eq, ← UInt8.toNat_inj, UInt8.reduceToNat]
    omega

/-! ### Words back to bits -/

lemma etobWords_cons {v : ℕ} (hv : v < 2048) (b : ℕ → UInt8) (p : ℕ) (ws : List Bytes) :
    etobWords b p (pcWord v :: ws) =
      if v = 570 then .error 0 else etobWords (insert b v p 11) (p + 11) ws := by
  have hl : ¬ (toInt (pcWord v).length > 4 ∨ toInt (pcWord v).length < 1) := by
    by_cases h : v < 571
    · obtain ⟨h1, h2⟩ := length_pcWord_short h
      rw [toInt_eq (by omega) (by omega)]
      omega
    · rw [length_pcWord_long (by omega) hv]
      decide
  rw [etobWords]
  simp only [if_neg hl, standard, wsrch_pcWord hv]
  by_cases h570 : v = 570
  · rw [if_pos h570, if_pos (by decide), if_pos h570]
  · rw [if_neg h570, if_neg (by omega), if_neg h570, Int.toNat_natCast]

lemma etobWords_unknown {vs : List ℕ} (hvs : ∀ v ∈ vs, v < 2048) (h : 570 ∈ vs) (b : ℕ → UInt8) (p : ℕ) :
    etobWords b p (vs.map pcWord) = .error 0 := by
  induction vs generalizing b p with
  | nil => cases h
  | cons v vs ih =>
    rw [List.map_cons, etobWords_cons (hvs v List.mem_cons_self)]
    split_ifs with h570
    · rfl
    · refine ih (fun w hw => hvs w (List.mem_cons_of_mem _ hw)) ?_ _ _
      exact (List.mem_cons.1 h).resolve_left (Ne.symm h570)

/-- Word `k` goes to the 11 bits from `p + 11 * k` on. -/
lemma etobWords_bits {vs : List ℕ} (hvs : ∀ v ∈ vs, v < 2048) (h : 570 ∉ vs) (b : ℕ → UInt8) (p : ℕ) :
    ∃ b', etobWords b p (vs.map pcWord) = .ok b' ∧ ∀ i, bitAt b' i =
      (bitAt b i || (decide (p ≤ i ∧ i < p + 11 * vs.length) &&
        (vs.getD ((i - p) / 11) 0).testBit (10 - (i - p) % 11))) := by
  induction vs generalizing b p with
  | nil =>
    refine ⟨b, rfl, ?_⟩
    intro i
    rw [List.length_nil, decide_eq_false (by omega), Bool.false_and, Bool.or_false]
  | cons v vs ih =>
    have hv := hvs v List.mem_cons_self
    obtain ⟨b', hb', hbits⟩ := ih (fun w hw => hvs w (List.mem_cons_of_mem _ hw))
      (fun hm => h (List.mem_cons_of_mem _ hm)) (insert b v p 11) (p + 11)
    refine ⟨b', ?_, ?_⟩
    · rw [List.map_cons, etobWords_cons hv, if_neg fun h570 : v = 570 => h (h570 ▸ List.mem_cons_self), hb']
    · intro i
      rw [hbits, bitAt_insert b hv (by omega) (by omega), List.length_cons, Bool.or_assoc]
      congr 1
      rcases (by omega : i < p ∨ (p ≤ i ∧ i < p + 11) ∨ p + 11 ≤ i) with hi | hi | hi
      · simp [show ¬ p ≤ i by omega, show ¬ p + 11 ≤ i by omega]
      · rw [show (i - p) / 11 = 0 by omega, List.getD_cons_zero, decide_eq_true hi,
          decide_eq_false (by omega : ¬ (p + 11 ≤ i ∧ i < p + 11 + 11 * vs.length)),
          decide_eq_true (by omega : p ≤ i ∧ i < p + 11 * (vs.length + 1)),
          show p + 11 - 1 - i = 10 - (i - p) % 11 by omega]
        simp
      · rw [show (i - p) / 11 = (i - (p + 11)) / 11 + 1 by omega, List.getD_cons_succ,
          show (i - (p + 11)) % 11 = (i - p) % 11 by omega,
          decide_eq_false (by omega : ¬ (p ≤ i ∧ i < p + 11)), Bool.false_and, Bool.false_or]
        congr 1
        exact decide_eq_decide.2 (by omega)

/-! ### One half of a key -/

/-- The sum of the two-bit groups. -/
def pairSum (s : ℕ → UInt8) : ℕ := ((List.range 32).map fun k => field s (2 * k) 2).sum

/-- The array that `btoe` encodes: the data, then the parity. -/
def packed (strData : Bytes) : ℕ → UInt8 :=
  Function.update (fun k => strData.getD k 0) 8 (toUChar (pairSum (fun k => strData.getD k 0) <<< 6 : ℕ))

/-- The six words' places in the dictionary. -/
def groups (strData : Bytes) : List ℕ := (List.range 6).map fun k => field (packed strData) (11 * k) 11

lemma groups_lt (strData : Bytes) : ∀ v ∈ groups strData, v < 2048 := by
  intro v hv
  obtain ⟨k, _, rfl⟩ := List.mem_map.1 hv
  exact field_lt _ _ 11

lemma packed_lt {strData : Bytes} {k : ℕ} (h : k < 8) : packed strData k = strData.getD k 0 :=
  Function.update_of_ne (by omega) _ _

lemma pairSum_congr {s t : ℕ → UInt8} (h : ∀ i, i < 64 → bitAt s i = bitAt t i) : pairSum s = pairSum t := by
  unfold pairSum
  congr 1
  refine List.map_congr_left fun k hk => field_congr fun i _ hi => h i ?_
  have := List.mem_range.1 hk
  omega

lemma pairSum_packed (strData : Bytes) :
    pairSum (packed strData) = pairSum fun k => strData.getD k 0 := by
  apply pairSum_congr
  intro i hi
  rw [bitAt, bitAt, packed_lt (by omega)]

/-- The parity bits stand in the top of the ninth character. -/
lemma field_packed_parity (strData : Bytes) : field (packed strData) 64 2 = pairSum (packed strData) % 4 := by
  have h := field_field (packed strData) (8 * 8) 8 0 2 (by omega)
  rw [field_byte] at h
  rw [show 64 = 8 * 8 + 0 by omega, h, pairSum_packed, packed, Function.update_self, toUChar_natCast,
    UInt8.toNat_ofNat', Nat.shiftLeft_eq]
  omega

lemma btoe_eq (stale : Stale) {strData : Bytes} (h : strData.length = 8) :
    btoe stale strData = .ok (phrase ((groups strData).map pcWord)) := by
  have hx : ∀ start, start + 11 ≤ 72 → ∀ m,
      extract (within 9 (packed strData) m) start 11 = field (packed strData) start 11 :=
    fun start hs m => extract_within _ _ (by omega) (by omega)
  rw [btoe, if_neg (by omega)]
  dsimp only
  rw [parity_eq (by omega), ← pairSum, ← packed, hx 0 (by omega), hx 11 (by omega), hx 22 (by omega),
    hx 33 (by omega), hx 44 (by omega), hx 55 (by omega)]
  simp [groups, phrase, List.range_succ]

/-- The words of a half go back to its bits, if the search knows them. -/
lemma etob_groups (stale : Stale) {strData : Bytes} (h : strData.length = 8) (strOld : Bytes) :
    etob stale strOld ((groups strData).map pcWord) =
      if 570 ∈ groups strData then (0, strOld) else (1, strData) := by
  have hlen : (groups strData).length = 6 := by simp [groups]
  rw [etob, if_neg (by simp [hlen])]
  split_ifs with hyou
  · rw [etobWords_unknown (groups_lt strData) hyou]
  obtain ⟨b, hb, hbits⟩ := etobWords_bits (groups_lt strData) hyou (fun _ => 0) 0
  rw [hb]
  -- Bit by bit, the array put together is the array that was taken apart.
  have hsame : ∀ i, i < 66 → bitAt b i = bitAt (packed strData) i := by
    intro i hi
    have hget : (groups strData).getD (i / 11) 0 = field (packed strData) (11 * (i / 11)) 11 := by
      rw [groups, List.getD_eq_getElem?_getD, List.getElem?_map, List.getElem?_range (by omega)]
      rfl
    rw [hbits, hlen, Nat.sub_zero, hget, testBit_field, decide_eq_true (by omega), decide_eq_true (by omega),
      show 11 * (i / 11) + 11 - 1 - (10 - i % 11) = i by omega]
    simp [bitAt]
  have hparity : parity 9 b stale &&& 3 = field (packed strData) 64 2 := by
    rw [parity_eq (by omega), ← pairSum, pairSum_congr fun i hi => hsame i (by omega), field_packed_parity,
      show 3 = 2 ^ 2 - 1 by norm_num, Nat.and_two_pow_sub_one_eq_mod]
  have hbytes : (List.range 8).map b = strData := by
    refine List.ext_getElem (by simp [h]) ?_
    intro k hk hk'
    rw [h] at hk'
    rw [List.getElem_map, List.getElem_range, byte_ext fun i _ hi => hsame i (by omega), packed_lt hk',
      List.getD_eq_getElem?_getD, List.getElem?_eq_getElem (by omega), Option.getD_some]
  dsimp only
  rw [hparity, extract_within _ _ (by omega) (by omega), field_congr fun i _ hi => hsame i (by omega)]
  simp only [ne_eq, not_true_eq_false, if_false, hbytes]

/-! ### Keys -/

section Key

variable (m₁ m₂ m₃ m₄ : Stale) {key : Bytes}

lemma key2eng_eq (h : key.length = 16) :
    key2eng m₁ m₂ key = .ok (phrase ((groups (key.take 8) ++ groups (key.drop 8)).map pcWord)) := by
  rw [key2eng, substr, if_neg (by omega), substr, if_neg (by omega), List.drop_zero,
    List.take_of_length_le (by simp [h] : (key.drop 8).length ≤ 8)]
  simp only [bind, Except.bind]
  rw [btoe_eq m₁ (by simp [h]), btoe_eq m₂ (by simp [h])]
  simp [pure, Except.pure, groups, phrase, List.range_succ]

/-- **What `eng2key` makes of the phrase of a key**: the key, unless one of the words is number 570. -/
theorem eng2key_phrase (h : key.length = 16) (strKey : Bytes) :
    eng2key m₃ m₄ strKey (phrase ((groups (key.take 8) ++ groups (key.drop 8)).map pcWord)) =
      if 570 ∈ groups (key.take 8) ∨ 570 ∈ groups (key.drop 8) then (0, strKey) else (1, key) := by
  have hlen : ∀ d, ((groups d).map pcWord).length = 6 := fun d => by simp [groups]
  have hwords : ∀ w ∈ (groups (key.take 8) ++ groups (key.drop 8)).map pcWord, IsWord w := by
    intro w hw
    obtain ⟨v, hv, rfl⟩ := List.mem_map.1 hw
    refine isWord_pcWord ?_
    rcases List.mem_append.1 hv with hv | hv <;> exact groups_lt _ v hv
  have hne : (groups (key.take 8) ++ groups (key.drop 8)).map pcWord ≠ [] := by simp [groups]
  rw [eng2key]
  dsimp only
  rw [trim_phrase hwords, splitSpace_phrase hwords hne, List.map_append,
    List.take_left' (hlen _), List.drop_left' (hlen _), List.take_of_length_le (hlen _).le,
    etob_groups m₃ (by simp [h]), etob_groups m₄ (by simp [h]), if_neg (by simp [groups])]
  by_cases h1 : 570 ∈ groups (key.take 8)
  · simp [h1]
  · by_cases h2 : 570 ∈ groups (key.drop 8)
    · simp [h1, h2]
    · simp [h1, h2]

end Key

/-! ### The groups as numbers -/

/-- The sum of the 32 two-bit groups of a number of 64 bits. -/
def twoBitSum (N : ℕ) : ℕ := ((List.range 32).map fun k => N / 4 ^ (31 - k) % 4).sum

/-- Group `k` of the 66 bits that half a key and its parity make. -/
def wordIndex (half : Bytes) (k : ℕ) : ℕ :=
  (beNat half * 4 + twoBitSum (beNat half) % 4) / 2 ^ (55 - 11 * k) % 2 ^ 11

/-- Some word of the key's phrase is the last of the short ones. -/
def NamesYou (key : Bytes) : Prop :=
  ∃ k < 6, wordIndex (key.take 8) k = 570 ∨ wordIndex (key.drop 8) k = 570

lemma field_packed {half : Bytes} (h : half.length = 8) : field (packed half) 0 64 = beNat half := by
  rw [show 64 = 8 * half.length by omega]
  apply field_eq_beNat
  intro k hk
  rw [packed_lt (by omega), List.getD_eq_getElem?_getD, List.getElem?_eq_getElem hk, Option.getD_some]

lemma pairSum_eq {half : Bytes} (h : half.length = 8) : pairSum (packed half) = twoBitSum (beNat half) := by
  unfold pairSum twoBitSum
  congr 1
  apply List.map_congr_left
  intro k hk
  have hk := List.mem_range.1 hk
  have hf := field_field (packed half) 0 64 (2 * k) 2 (by omega)
  rw [Nat.zero_add, field_packed h, show 64 - 2 * k - 2 = 2 * (31 - k) by omega, pow_mul] at hf
  simpa using hf

lemma groups_eq {half : Bytes} (h : half.length = 8) : groups half = (List.range 6).map (wordIndex half) := by
  apply List.map_congr_left
  intro k hk
  have hk := List.mem_range.1 hk
  have hf := field_field (packed half) 0 (64 + 2) (11 * k) 11 (by omega)
  rw [field_append, Nat.zero_add, Nat.zero_add, field_packed h, field_packed_parity, pairSum_eq h,
    show 64 + 2 - 11 * k - 11 = 55 - 11 * k by omega] at hf
  exact hf

lemma namesYou_iff {key : Bytes} (h : key.length = 16) :
    NamesYou key ↔ 570 ∈ groups (key.take 8) ∨ 570 ∈ groups (key.drop 8) := by
  simp only [NamesYou, groups_eq (by simp [h] : (key.take 8).length = 8),
    groups_eq (by simp [h] : (key.drop 8).length = 8), List.mem_map, List.mem_range, ← exists_or,
    ← and_or_left]

/-! ### Round trips -/

/-- The key comes back from its words. -/
def Returns (m₁ m₂ m₃ m₄ : Stale) (key strKey : Bytes) : Prop :=
  ∃ strHuman, key2eng m₁ m₂ key = .ok strHuman ∧ eng2key m₃ m₄ strKey strHuman = (1, key)

/-- The seed comes back, into the address `na`, from its words. -/
def SeedReturns (m₁ m₂ m₃ m₄ : Stale) (seed : BaseUInt 128) (na : NewcoinAddress) : Prop :=
  ∃ strHuman, (NewcoinAddress.setSeed seed).humanSeed1751 m₁ m₂ = .ok strHuman ∧
    (na.setSeed1751 m₃ m₄ strHuman).1 = 1 ∧ (na.setSeed1751 m₃ m₄ strHuman).2.getSeed = .ok seed

section Returns

variable (m₁ m₂ m₃ m₄ : Stale)

lemma returns_iff {key : Bytes} (h : key.length = 16) (strKey : Bytes) :
    Returns m₁ m₂ m₃ m₄ key strKey ↔ ¬ NamesYou key := by
  have hk := key2eng_eq m₁ m₂ h
  have he := eng2key_phrase m₃ m₄ h strKey
  rw [namesYou_iff h]
  constructor
  · rintro ⟨strHuman, h1, h2⟩ hyou
    rw [hk] at h1
    rw [← Except.ok.inj h1, he, if_pos hyou] at h2
    have h01 : (0 : ℤ) = 1 := congrArg Prod.fst h2
    exact absurd h01 (by decide)
  · intro hyou
    exact ⟨_, hk, by rw [he, if_neg hyou]⟩

lemma seedReturns_iff (seed : BaseUInt 128) (na : NewcoinAddress) :
    SeedReturns m₁ m₂ m₃ m₄ seed na ↔ ¬ NamesYou seed.bytes.reverse := by
  have h16 : seed.bytes.reverse.length = 16 := by rw [List.length_reverse, seed.size]
  have hhuman : (NewcoinAddress.setSeed seed).humanSeed1751 m₁ m₂ = key2eng m₁ m₂ seed.bytes.reverse := by
    rw [NewcoinAddress.humanSeed1751, NewcoinAddress.getSeed_setSeed]
    rfl
  have he := eng2key_phrase m₃ m₄ h16 []
  rw [SeedReturns, hhuman, key2eng_eq m₁ m₂ h16, namesYou_iff h16]
  constructor
  · rintro ⟨strHuman, h1, h2, _⟩ hyou
    rw [← Except.ok.inj h1, NewcoinAddress.setSeed1751, he, if_pos hyou] at h2
    have h01 : (0 : ℤ) = 1 := h2
    exact absurd h01 (by decide)
  · intro hyou
    refine ⟨_, rfl, ?_⟩
    rw [NewcoinAddress.setSeed1751, he, if_neg hyou]
    refine ⟨rfl, ?_⟩
    simp only [if_true, List.reverse_reverse, BaseUInt.ofBytes_bytes, NewcoinAddress.getSeed_setSeed]

end Returns

/-- **A key, or a seed, survives the trip through words exactly if the dictionary search can find all
of its words.** -/
theorem rfc1751_round_trip_iff (m₁ m₂ m₃ m₄ : Stale) :
    (∀ key strKey : Bytes, key.length = 16 → (Returns m₁ m₂ m₃ m₄ key strKey ↔ ¬ NamesYou key)) ∧
      ∀ (seed : BaseUInt 128) (na : NewcoinAddress),
        SeedReturns m₁ m₂ m₃ m₄ seed na ↔ ¬ NamesYou seed.bytes.reverse :=
  ⟨fun _ strKey h => returns_iff m₁ m₂ m₃ m₄ h strKey, seedReturns_iff m₁ m₂ m₃ m₄⟩

/-- The key of zeros is twelve times the first word, whatever bits stand behind the arrays. -/
theorem rfc1751_round_trip_zeros :
    Returns (fun _ _ _ => 255) (fun _ _ _ => 0) (fun _ _ _ => 255) (fun start _ k => UInt8.ofNat (start + k))
      (List.replicate 16 0) [] :=
  ((rfc1751_round_trip_iff _ _ _ _).1 _ [] rfl).2 (by unfold NamesYou; decide)

/-- The key whose first eleven bits are 570. -/
def youKey : Bytes := 0x47 :: 0x40 :: List.replicate 14 0

theorem rfc1751_loses_youKey :
    ¬ ∀ (m₁ m₂ m₃ m₄ : Stale) (key strKey : Bytes), key.length = 16 → Returns m₁ m₂ m₃ m₄ key strKey := by
  intro h
  exact (returns_iff (fun _ _ _ => 0) _ _ _ rfl []).1 (h (fun _ _ _ => 0) (fun _ _ _ => 0)
    (fun _ _ _ => 0) (fun _ _ _ => 0) youKey [] rfl) (by unfold NamesYou; decide)

end Newcoin.Rfc1751
