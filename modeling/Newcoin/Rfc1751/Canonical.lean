import Newcoin.Rfc1751.RoundTrip
import Newcoin.Words

/-!
# Accepted phrases are canonical

The search returns the place of exactly the word it was given (`etobWords_ok`), the words' places are
the bits of the result, and the parity bits decide whether these are the groups of its eight bytes
(`etob_known`).  So a phrase that is accepted is the one that `key2eng` writes for its key
(`accepted_canonical`).
-/

namespace Newcoin.Rfc1751

open Lib

/-! ### Known words -/

lemma charCodes_inj {s t : Bytes} (h : charCodes s = charCodes t) : s = t :=
  List.map_injective_iff.2 (fun _ _ => UInt8.toNat_inj.1) h

lemma search_pcWord {w : Bytes} {iMin iMax i : ℕ}
    (h : search (probe (charCodes w) fun i => charCodes (pcWord i)) iMin iMax = some i) :
    i < iMax ∧ pcWord i = w := by
  obtain ⟨-, hlt, heq⟩ := search_eq_some h
  exact ⟨hlt, charCodes_inj ((cmp_eq_eq_iff _ _).1 heq).symm⟩

/-- What the search finds is the word. -/
lemma wsrch_sound {w : Bytes} {iMin iMax : ℕ} (h : ¬ wsrch w iMin iMax < 0) :
    ∃ v : ℕ, wsrch w iMin iMax = v ∧ v < iMax ∧ pcWord v = w := by
  rcases hs : search (probe (charCodes w) fun i => charCodes (pcWord i)) iMin iMax with _ | i
  · exact absurd (by rw [wsrch, hs]; decide) h
  · obtain ⟨hlt, heq⟩ := search_pcWord hs
    exact ⟨i, wsrch_eq hs, hlt, heq⟩

/-- The search can find the word. -/
def Known (w : Bytes) : Prop := ∃ v < 2048, v ≠ 570 ∧ w = pcWord v

/-- `l > 4 || l < 1`. -/
def BadLength (w : Bytes) : Prop := toInt w.length > 4 ∨ toInt w.length < 1

instance (w : Bytes) : Decidable (BadLength w) := by unfold BadLength; infer_instance

/-- **One word**: it has a bad length, or it is unknown, or it goes to its eleven bits. -/
lemma etobWords_cases (b : ℕ → UInt8) (p : ℕ) (w : Bytes) (ws : List Bytes) :
    (BadLength w ∧ etobWords b p (w :: ws) = .error (-1)) ∨
    (¬ BadLength w ∧ ¬ Known w ∧ etobWords b p (w :: ws) = .error 0) ∨
    ∃ v < 2048, v ≠ 570 ∧ w = pcWord v ∧ etobWords b p (w :: ws) = etobWords (insert b v p 11) (p + 11) ws := by
  by_cases hl : BadLength w
  · refine .inl ⟨hl, ?_⟩
    unfold BadLength at hl
    rw [etobWords]
    simp only [if_pos hl]
  · right
    have hbad : ¬ (toInt w.length > 4 ∨ toInt w.length < 1) := hl
    have hword : etobWords b p (w :: ws) = _ := etobWords.eq_2 b p w ws
    simp only [if_neg hbad] at hword
    by_cases h0 : wsrch w (if toInt w.length < 4 then 0 else 571) (if toInt w.length < 4 then 570 else 2048) < 0
    · refine .inl ⟨hl, ?_, ?_⟩
      · rintro ⟨v, hv, h570, rfl⟩
        rw [wsrch_pcWord hv, if_neg h570] at h0
        omega
      · rw [hword]
        exact if_pos h0
    · right
      obtain ⟨v, hv, hlt, rfl⟩ := wsrch_sound h0
      have hv2048 : v < 2048 := by split_ifs at hlt <;> omega
      have h570 : v ≠ 570 := by
        rintro rfl
        rw [wsrch_pcWord hv2048, if_pos rfl] at hv
        omega
      refine ⟨v, hv2048, h570, rfl, ?_⟩
      rw [etobWords_cons hv2048, if_neg h570]

/-- **Words that are all taken are words of the dictionary**, and not number 570; by induction on them. -/
lemma etobWords_ok {ws : List Bytes} {b b' : ℕ → UInt8} {p : ℕ} (h : etobWords b p ws = .ok b') :
    ∃ vs : List ℕ, ws = vs.map pcWord ∧ (∀ v ∈ vs, v < 2048) ∧ 570 ∉ vs := by
  induction ws generalizing b p with
  | nil => exact ⟨[], rfl, fun v hv => absurd hv List.not_mem_nil, List.not_mem_nil⟩
  | cons w ws ih =>
    rcases etobWords_cases b p w ws with ⟨-, e⟩ | ⟨-, -, e⟩ | ⟨v, hv, h570, rfl, e⟩
    · cases e.symm.trans h
    · cases e.symm.trans h
    · obtain ⟨vs, rfl, hvs, hnot⟩ := ih (e.symm.trans h)
      refine ⟨v :: vs, rfl, List.forall_mem_cons.2 ⟨hv, hvs⟩, ?_⟩
      exact fun hmem => (List.mem_cons.1 hmem).elim (fun he => h570 he.symm) hnot

lemma etobWords_error {ws : List Bytes} {b : ℕ → UInt8} {p : ℕ} {rc : ℤ} (h : etobWords b p ws = .error rc) :
    rc ≠ 1 := by
  induction ws generalizing b p with
  | nil => cases h
  | cons w ws ih =>
    rcases etobWords_cases b p w ws with ⟨-, e⟩ | ⟨-, -, e⟩ | ⟨v, -, -, -, e⟩
    · obtain rfl : -1 = rc := Except.error.inj (e.symm.trans h)
      decide
    · obtain rfl : 0 = rc := Except.error.inj (e.symm.trans h)
      decide
    · exact ih (e.symm.trans h)

/-! ### One half of a phrase -/

lemma getD_map_range (b : ℕ → UInt8) {k : ℕ} (h : k < 8) : ((List.range 8).map b).getD k 0 = b k := by
  rw [List.getD_eq_getElem?_getD, List.getElem?_map, List.getElem?_range h]
  rfl

/-- The first 64 bits of the array of a half are its own. -/
lemma bitAt_packed_range (b : ℕ → UInt8) {i : ℕ} (h : i < 64) :
    bitAt (packed ((List.range 8).map b)) i = bitAt b i := by
  rw [bitAt, bitAt, packed_lt (by omega), getD_map_range b (by omega)]

/-- The groups are the words' places exactly if the parity bits agree: the last group ends in them. -/
lemma groups_eq_iff {vs : List ℕ} {b : ℕ → UInt8} (hlen : vs.length = 6)
    (hb : ∀ k < 6, vs.getD k 0 = field b (11 * k) 11) :
    groups ((List.range 8).map b) = vs ↔ field (packed ((List.range 8).map b)) 64 2 = field b 64 2 := by
  have hvs : vs = (List.range 6).map fun k => field b (11 * k) 11 := by
    refine List.ext_getElem (by simp [hlen]) ?_
    intro k hk hk'
    have hk6 : k < 6 := by simpa using hk'
    rw [List.getElem_map, List.getElem_range, ← hb k hk6, List.getD_eq_getElem?_getD,
      List.getElem?_eq_getElem hk, Option.getD_some]
  rw [hvs, groups]
  constructor
  · intro h
    have h5 : field (packed ((List.range 8).map b)) (11 * 5) 11 = field b (11 * 5) 11 :=
      List.map_inj_left.1 h 5 (by decide)
    have hp := field_field (packed ((List.range 8).map b)) 55 11 9 2 (by omega)
    rw [h5, ← field_field b 55 11 9 2 (by omega)] at hp
    exact hp
  · intro h
    refine List.map_congr_left fun k hk => field_congr fun i _ hi => ?_
    have hk := List.mem_range.1 hk
    by_cases h64 : i < 64
    · exact bitAt_packed_range b h64
    · have ht := congrArg (Nat.testBit · (65 - i)) h
      simp only [testBit_field] at ht
      rw [decide_eq_true (by omega), Bool.true_and, Bool.true_and, show 64 + 2 - 1 - (65 - i) = i by omega] at ht
      exact ht

/-- **Known words are accepted exactly if they are those of eight bytes.** -/
lemma etob_known (stale : Stale) {vs : List ℕ} (hlen : vs.length = 6) (hvs : ∀ v ∈ vs, v < 2048) (h570 : 570 ∉ vs) :
    ∃ d : Bytes, d.length = 8 ∧ ∀ strOld,
      etob stale strOld (vs.map pcWord) = if groups d = vs then (1, d) else (-2, strOld) := by
  obtain ⟨b, hb, hbits⟩ := etobWords_bits hvs h570 (fun _ => 0) 0
  have hfield : ∀ k < 6, vs.getD k 0 = field b (11 * k) 11 := by
    intro k hk
    have hlt : vs.getD k 0 < 2 ^ 11 := by
      rw [List.getD_eq_getElem?_getD, List.getElem?_eq_getElem (by omega), Option.getD_some]
      exact hvs _ (List.getElem_mem _)
    apply Nat.eq_of_testBit_eq
    intro j
    rw [testBit_field]
    by_cases hj : j < 11
    · rw [hbits, hlen, Nat.sub_zero, decide_eq_true (by omega), decide_eq_true (by omega),
        show (11 * k + 11 - 1 - j) / 11 = k by omega, show 10 - (11 * k + 11 - 1 - j) % 11 = j by omega]
      simp [bitAt]
    · rw [Nat.testBit_lt_two_pow (hlt.trans_le (Nat.pow_le_pow_right (by omega) (by omega : 11 ≤ j)))]
      simp [hj]
  have hparity : parity 9 b stale &&& 3 = field (packed ((List.range 8).map b)) 64 2 := by
    rw [parity_eq (by omega), ← pairSum, field_packed_parity,
      pairSum_congr fun i hi => bitAt_packed_range b hi, show 3 = 2 ^ 2 - 1 by norm_num,
      Nat.and_two_pow_sub_one_eq_mod]
  refine ⟨(List.range 8).map b, by simp, ?_⟩
  intro strOld
  rw [etob, if_neg (by simp [hlen]), hb]
  dsimp only
  rw [hparity, extract_within _ _ (by omega) (by omega)]
  simp only [groups_eq_iff hlen hfield, ne_eq, ite_not]

/-- **What is accepted is the words of the result.** -/
lemma etob_accepted {stale : Stale} {ws : List Bytes} {strOld d : Bytes} (h : etob stale strOld ws = (1, d)) :
    d.length = 8 ∧ ws = (groups d).map pcWord := by
  have hlen : ws.length = 6 := by
    by_contra hne
    rw [etob, if_pos (Ne.symm hne)] at h
    have h1 : (-1 : ℤ) = 1 := congrArg Prod.fst h
    exact absurd h1 (by decide)
  rcases hb : etobWords (fun _ => 0) 0 ws with rc | b
  · rw [etob, if_neg (by omega), hb] at h
    exact absurd (congrArg Prod.fst h) (etobWords_error hb)
  · obtain ⟨vs, rfl, hvs, h570⟩ := etobWords_ok hb
    obtain ⟨d', hd', he⟩ := etob_known stale (by simpa using hlen) hvs h570
    rw [he] at h
    split_ifs at h with hg
    · obtain rfl : d' = d := congrArg Prod.snd h
      exact ⟨hd', by rw [hg]⟩
    · have h2 : (-2 : ℤ) = 1 := congrArg Prod.fst h
      exact absurd h2 (by decide)

/-! ### Whole phrases -/

section Phrase

variable {m₁ m₂ : Stale} {strKey strHuman k : Bytes}

/-- **What is accepted splits into the words of the key.** -/
theorem eng2key_accepted (h : eng2key m₁ m₂ strKey strHuman = (1, k)) :
    k.length = 16 ∧
      splitSpace (trim strHuman) = (groups (k.take 8) ++ groups (k.drop 8)).map pcWord := by
  rcases h1 : etob m₁ [] ((splitSpace (trim strHuman)).take 6) with ⟨c1, d1⟩
  rcases h2 : etob m₂ [] (((splitSpace (trim strHuman)).drop 6).take 6) with ⟨c2, d2⟩
  rw [eng2key] at h
  simp only [h1, h2] at h
  split_ifs at h with h12 hc1 hc2
  · have hcode : (-1 : ℤ) = 1 := congrArg Prod.fst h
    exact absurd hcode (by decide)
  · exact absurd (congrArg Prod.fst h) hc1
  · exact absurd (congrArg Prod.fst h) hc2
  · obtain rfl : d1 ++ d2 = k := congrArg Prod.snd h
    rw [not_not.1 hc1] at h1
    rw [not_not.1 hc2] at h2
    obtain ⟨hl1, hw1⟩ := etob_accepted h1
    obtain ⟨hl2, hw2⟩ := etob_accepted h2
    refine ⟨by rw [List.length_append, hl1, hl2], ?_⟩
    have hrest : ((splitSpace (trim strHuman)).drop 6).length ≤ 6 := by
      rw [List.length_drop]
      omega
    rw [List.take_left' hl1, List.drop_left' hl1, List.map_append, ← hw1, ← hw2, List.take_of_length_le hrest,
      List.take_append_drop]

lemma eng2key_unchanged (h : (eng2key m₁ m₂ strKey strHuman).1 ≠ 1) : (eng2key m₁ m₂ strKey strHuman).2 = strKey := by
  revert h
  rw [eng2key]
  dsimp only
  split_ifs with h12 h1 h2
  · exact fun _ => rfl
  · exact fun _ => rfl
  · exact fun _ => rfl
  · exact fun h => absurd rfl h

/-- The words of an accepted phrase. -/
lemma accepted_words (h : eng2key m₁ m₂ strKey strHuman = (1, k)) :
    ConsistsOf strHuman ((groups (k.take 8) ++ groups (k.drop 8)).map pcWord) := by
  obtain ⟨-, hw⟩ := eng2key_accepted h
  rw [← hw]
  refine consistsOf_of_length ?_
  simp [hw, groups]

end Phrase

/-- The phrase of the key of zeros is twelve times the first word. -/
lemma eng2key_zeros (m₁ m₂ : Stale) (strKey : Bytes) :
    eng2key m₁ m₂ strKey (phrase (List.replicate 12 (pcWord 0))) = (1, List.replicate 16 0) := by
  have hgroups : groups (List.replicate 8 0) = List.replicate 6 0 := by decide +kernel
  have h := eng2key_phrase m₁ m₂ (List.length_replicate : (List.replicate 16 (0 : UInt8)).length = 16) strKey
  rw [List.take_replicate, List.drop_replicate, show min 8 16 = 8 from rfl, show 16 - 8 = 8 from rfl, hgroups,
    if_neg (by decide)] at h
  exact h

/-- **Accepted phrases are canonical**: the words of one are those that `key2eng` writes for its key, so
phrases of other words have other keys; and a phrase that is not accepted leaves the key as it was. -/
theorem accepted_canonical (m₁ m₂ m₃ m₄ : Stale) :
    (∀ strKey strHuman k, eng2key m₁ m₂ strKey strHuman = (1, k) →
      ∃ ws, ConsistsOf strHuman ws ∧ ws.length = 12 ∧ key2eng m₃ m₄ k = .ok (phrase (ws.map standard))) ∧
    (∀ strKey strKey' strHuman strHuman' k k' ws ws', eng2key m₁ m₂ strKey strHuman = (1, k) →
      eng2key m₃ m₄ strKey' strHuman' = (1, k') → ConsistsOf strHuman ws → ConsistsOf strHuman' ws' →
      ws.map standard ≠ ws'.map standard → k ≠ k') ∧
    ∀ strKey strHuman, (eng2key m₁ m₂ strKey strHuman).1 ≠ 1 → (eng2key m₁ m₂ strKey strHuman).2 = strKey := by
  have same (ws : List Bytes) : ws.map standard = ws := List.map_id ws
  refine ⟨?_, ?_, fun strKey strHuman => eng2key_unchanged⟩
  · intro strKey strHuman k h
    refine ⟨_, accepted_words h, by simp [groups], ?_⟩
    rw [same]
    exact key2eng_eq m₃ m₄ (eng2key_accepted h).1
  · rintro strKey strKey' strHuman strHuman' k k' ws ws' h h' hws hws' hne rfl
    rw [same, same, ← hws.words, ← hws'.words] at hne
    exact hne ((eng2key_accepted h).2.trans (eng2key_accepted h').2.symm)

/-- The key of zeros. -/
theorem accepted_canonical_zeros :
    ∃ ws, ConsistsOf (phrase (List.replicate 12 (pcWord 0))) ws ∧ ws.length = 12 ∧
      key2eng (fun _ _ _ => 0) (fun _ _ _ => 0) (List.replicate 16 0) = .ok (phrase (ws.map standard)) :=
  (accepted_canonical (fun _ _ _ => 0) (fun _ _ _ => 0) _ _).1 [] _ _ (eng2key_zeros _ _ [])

end Newcoin.Rfc1751
