import Newcoin.Rfc1751.Canonical

/-!
# Other spellings of a phrase

`standard` means letters of either case, and the digits that look like L, O and S, to read the same; but
the words stay as they were written.  `Respell s t`: the text `t` is another spelling of `s`.  A word that
the search knows in one spelling it does not know in the others, so a text is read the same in all of its
spellings only if it is refused with the same code in all of them (`spellings_iff`).
-/

namespace Newcoin.Rfc1751

open Lib

/-! ### Characters -/

/-- A letter in the other case. -/
def otherCase (c : UInt8) : UInt8 := if 65 ≤ c ∧ c ≤ 90 then c + 32 else if 97 ≤ c ∧ c ≤ 122 then c - 32 else c

/-- `toupper`. -/
def toUpper (c : UInt8) : UInt8 := if 97 ≤ c ∧ c ≤ 122 then c - 32 else c

/-- The character, the letter in its other case, or the digit for `L`, `O` or `S`. -/
def Respelt (c d : UInt8) : Prop :=
  d = c ∨ d = otherCase c ∨ (c = 76 ∧ d = 49) ∨ (c = 79 ∧ d = 48) ∨ (c = 83 ∧ d = 53)

variable {c d : UInt8}

lemma isSpace_otherCase (c : UInt8) : isSpace (otherCase c) = isSpace c := by
  revert c
  refine forall_byte ?_
  decide +kernel

lemma isSpace_respelt (h : Respelt c d) : isSpace d = isSpace c := by
  rcases h with rfl | rfl | ⟨rfl, rfl⟩ | ⟨rfl, rfl⟩ | ⟨rfl, rfl⟩
  · rfl
  · exact isSpace_otherCase c
  all_goals rfl

lemma not_capital (h : 97 ≤ c ∧ c ≤ 122) : ¬ (65 ≤ c ∧ c ≤ 90) :=
  fun hc => absurd (UInt8.le_trans h.1 hc.2) (by decide)

lemma otherCase_small (h : 97 ≤ c ∧ c ≤ 122) : otherCase c = c - 32 := by
  rw [otherCase, if_neg (not_capital h), if_pos h]

lemma otherCase_capital (h : 65 ≤ c ∧ c ≤ 90) : 97 ≤ otherCase c ∧ otherCase c ≤ 122 := by
  rw [otherCase, if_pos h]
  simp only [UInt8.le_iff_toNat_le, UInt8.toNat_add, UInt8.reduceToNat] at h ⊢
  omega

lemma respelt_toUpper (c : UInt8) : Respelt c (toUpper c) := by
  unfold toUpper
  split_ifs with h
  · exact .inr (.inl (otherCase_small h).symm)
  · exact .inl rfl

lemma toUpper_self (h : 65 ≤ c ∧ c ≤ 90) : c = toUpper c := by
  rw [toUpper, if_neg fun hc => not_capital hc h]

lemma toUpper_otherCase (h : 65 ≤ otherCase c ∧ otherCase c ≤ 90) : otherCase c = toUpper c := by
  by_cases hc : 65 ≤ c ∧ c ≤ 90
  · exact absurd h (not_capital (otherCase_capital hc))
  · rw [otherCase, toUpper, if_neg hc]

/-- The only capital among the spellings of a character. -/
lemma respelt_capital (h : Respelt c d) (hd : 65 ≤ d ∧ d ≤ 90) : d = toUpper c := by
  rcases h with rfl | rfl | ⟨rfl, rfl⟩ | ⟨rfl, rfl⟩ | ⟨rfl, rfl⟩
  · exact toUpper_self hd
  · exact toUpper_otherCase hd
  all_goals exact absurd hd (by decide)

/-- Every character has a spelling that is no capital. -/
lemma exists_small (c : UInt8) : ∃ d, Respelt c d ∧ ¬ (65 ≤ d ∧ d ≤ 90) := by
  by_cases hc : 65 ≤ c ∧ c ≤ 90
  · exact ⟨otherCase c, .inr (.inl rfl), not_capital (otherCase_capital hc)⟩
  · exact ⟨c, .inl rfl, hc⟩

/-! ### Words -/

/-- Another spelling of a text. -/
def Respell : Bytes → Bytes → Prop := List.Forall₂ Respelt

/-- The word in capitals. -/
def capitals (w : Bytes) : Bytes := w.map toUpper

/-- Some spelling of the word can be found, and then it is the one in capitals. -/
def Live (w : Bytes) : Prop := Known (capitals w)

variable {s t w v : Bytes}

lemma respell_refl (s : Bytes) : Respell s s := List.forall₂_same.2 fun _ _ => .inl rfl

lemma respell_capitals (w : Bytes) : Respell w (capitals w) :=
  List.forall₂_map_right_iff.2 (List.forall₂_same.2 fun c _ => respelt_toUpper c)

lemma known_letters (h : Known w) : ∀ c ∈ w, 65 ≤ c ∧ c ≤ 90 := by
  obtain ⟨v, hv, -, rfl⟩ := h
  exact pcWord_letters hv

lemma known_ne_nil (h : Known w) : w ≠ [] := by
  obtain ⟨v, hv, -, rfl⟩ := h
  exact (isWord_pcWord hv).1

/-- **A known spelling is the one in capitals.** -/
lemma eq_capitals (h : Respell w v) (hv : Known v) : v = capitals w := by
  have hletters := known_letters hv
  clear hv
  induction h with
  | nil => rfl
  | cons hc h ih =>
    rw [respelt_capital hc (hletters _ List.mem_cons_self), ih fun d hd => hletters d (List.mem_cons_of_mem _ hd)]
    rfl

lemma live_of_known (h : Respell w v) (hv : Known v) : Live w := by
  rwa [Live, ← eq_capitals h hv]

/-- A word that can be found can be spelt so that it cannot. -/
lemma exists_unknown (h : Live w) : ∃ v, Respell w v ∧ ¬ Known v := by
  cases w with
  | nil => exact absurd rfl (known_ne_nil h)
  | cons c w =>
    obtain ⟨d, hd, hsmall⟩ := exists_small c
    exact ⟨d :: w, .cons hd (respell_refl w), fun hk => hsmall (known_letters hk d List.mem_cons_self)⟩

lemma badLength_respell (h : Respell w v) : BadLength v ↔ BadLength w := by
  unfold BadLength
  rw [h.length_eq]

lemma not_badLength_of_known (h : Known w) : ¬ BadLength w := by
  obtain ⟨v, hv, -, rfl⟩ := h
  unfold BadLength
  by_cases hs : v < 571
  · obtain ⟨h1, h2⟩ := length_pcWord_short hs
    rw [toInt_eq (by omega) (by omega)]
    omega
  · rw [length_pcWord_long (by omega) hv]
    decide

lemma Live.not_badLength (h : Live w) : ¬ BadLength w := by
  rw [← badLength_respell (respell_capitals w)]
  exact not_badLength_of_known h

/-! ### Texts -/

lemma respell_append_left {a b : Bytes} (h : Respell (a ++ b) t) :
    ∃ a' b', t = a' ++ b' ∧ Respell a a' ∧ Respell b b' := by
  refine ⟨t.take a.length, t.drop a.length, (List.take_append_drop _ _).symm, ?_, ?_⟩
  · have htake := List.forall₂_take a.length h
    rwa [List.take_left' rfl] at htake
  · have hdrop := List.forall₂_drop a.length h
    rwa [List.drop_left' rfl] at hdrop

lemma blank_respell {b b' : Bytes} (hb : Blank b) (h : Respell b b') : Blank b' := by
  induction h with
  | nil => exact hb
  | @cons c d b b' hc h ih =>
    have hrest := ih fun e he => hb e (List.mem_cons_of_mem _ he)
    intro e he
    rcases List.mem_cons.1 he with rfl | he
    · rw [isSpace_respelt hc]
      exact hb c List.mem_cons_self
    · exact hrest e he

lemma isWord_respell (hw : IsWord w) (h : Respell w v) : IsWord v := by
  refine ⟨fun hv => hw.1 ?_, ?_⟩
  · rw [hv] at h
    exact List.forall₂_nil_right_iff.1 h
  · have hall := hw.2
    clear hw
    induction h with
    | nil => exact fun c hc => absurd hc List.not_mem_nil
    | @cons c d w v hc h ih =>
      have hrest := ih fun e he => hall e (List.mem_cons_of_mem _ he)
      intro e he
      rcases List.mem_cons.1 he with rfl | he
      · rw [isSpace_respelt hc]
        exact hall c List.mem_cons_self
      · exact hrest e he

variable {ws vs : List Bytes}

lemma spaced_respell (h : Spaced ws s) (hr : Respell s t) : ∃ vs, List.Forall₂ Respell ws vs ∧ Spaced vs t := by
  induction h generalizing t with
  | one hw => exact ⟨[t], .cons hr .nil, .one (isWord_respell hw hr)⟩
  | cons hw hb hne h ih =>
    obtain ⟨t₁, t₂, rfl, hr, hrest⟩ := respell_append_left hr
    obtain ⟨w', b', rfl, hrw, hrb⟩ := respell_append_left hr
    obtain ⟨vs, hvs, hs⟩ := ih hrest
    refine ⟨w' :: vs, .cons hrw hvs, .cons (isWord_respell hw hrw) (blank_respell hb hrb) ?_ hs⟩
    rintro rfl
    exact hne (List.forall₂_nil_right_iff.1 hrb)

/-- The words of another spelling are other spellings of the words. -/
lemma consistsOf_respell (h : ConsistsOf s ws) (hr : Respell s t) :
    ∃ vs, List.Forall₂ Respell ws vs ∧ ConsistsOf t vs := by
  obtain ⟨lead, core, trail, rfl, hl, ht, hcore⟩ := h
  obtain ⟨t₁, trail', rfl, hr, hrt⟩ := respell_append_left hr
  obtain ⟨lead', core', rfl, hrl, hrc⟩ := respell_append_left hr
  obtain ⟨vs, hvs, hs⟩ := spaced_respell hcore hrc
  exact ⟨vs, hvs, lead', core', trail', rfl, blank_respell hl hrl, blank_respell ht hrt, hs⟩

lemma spaced_of_respell (h : Spaced ws s) (hr : List.Forall₂ Respell ws vs) : ∃ t, Respell s t ∧ Spaced vs t := by
  induction h generalizing vs with
  | one hw =>
    cases hr with
    | cons hrw hr =>
      cases hr
      exact ⟨_, hrw, .one (isWord_respell hw hrw)⟩
  | @cons w b s ws hw hb hne h ih =>
    cases hr with
    | cons hrw hr =>
      obtain ⟨t, ht, hs⟩ := ih hr
      exact ⟨_, List.rel_append (List.rel_append hrw (respell_refl b)) ht,
        .cons (isWord_respell hw hrw) hb hne hs⟩

/-- Other spellings of the words make another spelling of the text. -/
lemma consistsOf_of_respell (h : ConsistsOf s ws) (hr : List.Forall₂ Respell ws vs) :
    ∃ t, Respell s t ∧ ConsistsOf t vs := by
  obtain ⟨lead, core, trail, rfl, hl, ht, hcore⟩ := h
  obtain ⟨core', hrc, hs⟩ := spaced_of_respell hcore hr
  exact ⟨lead ++ core' ++ trail, List.rel_append (List.rel_append (respell_refl lead) hrc) (respell_refl trail),
    lead, core', trail, rfl, hl, ht, hs⟩

/-- A text has as many words in one spelling as in another. -/
lemma length_words_respell (hr : Respell s t) :
    (splitSpace (trim t)).length = (splitSpace (trim s)).length := by
  by_cases hs : Blank s
  · rw [trim_blank hs, trim_blank (blank_respell hs hr)]
  · obtain ⟨vs, hvs, ht⟩ := consistsOf_respell (consistsOf_words hs) hr
    rw [ht.words, hvs.length_eq]

/-! ### The loop over the words -/

/-- There is a word that cannot be found in any spelling, and each word before it can. -/
def Stops : List Bytes → Prop
  | [] => False
  | w :: ws => (¬ BadLength w ∧ ¬ Live w) ∨ (Live w ∧ Stops ws)

/-- **No spelling gets past such a word**, by induction on the words before it. -/
lemma Stops.error (h : Stops ws) (hr : List.Forall₂ Respell ws vs) (b : ℕ → UInt8) (p : ℕ) :
    etobWords b p vs = .error 0 := by
  induction hr generalizing b p with
  | nil => exact h.elim
  | @cons w v ws vs hrw hr ih =>
    rcases etobWords_cases b p v vs with ⟨hbad, -⟩ | ⟨-, -, e⟩ | ⟨i, hi, h570, hv, e⟩
    · rw [badLength_respell hrw] at hbad
      exact (h.elim (fun h => h.1 hbad) fun h => h.1.not_badLength hbad).elim
    · exact e
    · rcases h with ⟨-, hdead⟩ | ⟨-, h⟩
      · exact absurd (live_of_known hrw ⟨i, hi, h570, hv⟩) hdead
      · exact e.trans (ih h _ _)

/-- In capitals, only such a word is not found. -/
lemma stops_of_capitals {b : ℕ → UInt8} {p : ℕ} (h : etobWords b p (ws.map capitals) = .error 0) : Stops ws := by
  induction ws generalizing b p with
  | nil => cases h
  | cons w ws ih =>
    rw [List.map_cons] at h
    rcases etobWords_cases b p (capitals w) (ws.map capitals) with ⟨-, e⟩ | ⟨hbad, hdead, -⟩ | ⟨i, hi, h570, hv, e⟩
    · have hcode : (-1 : ℤ) = 0 := Except.error.inj (e.symm.trans h)
      exact absurd hcode (by decide)
    · rw [badLength_respell (respell_capitals w)] at hbad
      exact .inl ⟨hbad, hdead⟩
    · exact .inr ⟨⟨i, hi, h570, hv⟩, ih (e.symm.trans h)⟩

/-- Where every word can be found in some spelling, it is found in capitals only. -/
lemma etobWords_live (h : ∀ w ∈ ws, Live w) (hr : List.Forall₂ Respell ws vs) (b : ℕ → UInt8) (p : ℕ) :
    etobWords b p vs = .error 0 ∨ vs = ws.map capitals := by
  induction hr generalizing b p with
  | nil => exact .inr rfl
  | @cons w v ws vs hrw hr ih =>
    have hw := h w List.mem_cons_self
    rcases etobWords_cases b p v vs with ⟨hbad, -⟩ | ⟨-, -, e⟩ | ⟨i, hi, h570, hv, e⟩
    · rw [badLength_respell hrw] at hbad
      exact absurd hbad hw.not_badLength
    · exact .inl e
    · rcases ih (fun w hw => h w (List.mem_cons_of_mem _ hw)) (insert b i p 11) (p + 11) with he | rfl
      · exact .inl (e.trans he)
      · rw [eq_capitals hrw ⟨i, hi, h570, hv⟩]
        exact .inr rfl

/-! ### Halves -/

section Half

variable {stale : Stale} {strOld : Bytes}

lemma etob_error (hlen : ws.length = 6) {rc : ℤ} (h : etobWords (fun _ => 0) 0 ws = .error rc) :
    etob stale strOld ws = (rc, strOld) := by
  rw [etob, if_neg (by omega), h]

/-- The code 0 is that of a word not found. -/
lemma error_of_etob (hlen : ws.length = 6) (h : (etob stale strOld ws).1 = 0) :
    etobWords (fun _ => 0) 0 ws = .error 0 := by
  rcases hb : etobWords (fun _ => 0) 0 ws with rc | b
  · rw [etob_error hlen hb] at h
    rw [← h]
  · obtain ⟨vs, rfl, hvs, h570⟩ := etobWords_ok hb
    obtain ⟨d, -, he⟩ := etob_known stale (by simpa using hlen) hvs h570
    rw [he] at h
    split_ifs at h
    · have h1 : (1 : ℤ) = 0 := h
      exact absurd h1 (by decide)
    · have h2 : (-2 : ℤ) = 0 := h
      exact absurd h2 (by decide)

/-- The words of eight bytes. -/
def IsHalf (ws : List Bytes) : Prop := ∃ d : Bytes, d.length = 8 ∧ ws = (groups d).map pcWord

lemma isHalf_of_etob (h : (etob stale strOld ws).1 = 1) : IsHalf ws :=
  ⟨_, etob_accepted (Prod.ext h rfl : etob stale strOld ws = (1, _))⟩

lemma known_of_etob (hlen : ws.length = 6) (h : (etob stale strOld ws).1 = 1) : ∀ w ∈ ws, Known w := by
  rcases hb : etobWords (fun _ => 0) 0 ws with rc | b
  · rw [etob_error hlen hb] at h
    exact absurd h (etobWords_error hb)
  · obtain ⟨vs, rfl, hvs, h570⟩ := etobWords_ok hb
    intro w hw
    obtain ⟨v, hv, rfl⟩ := List.mem_map.1 hw
    exact ⟨v, hvs v hv, fun he => h570 (he ▸ hv), rfl⟩

lemma unknown_you : ¬ Known (pcWord 570) := by
  rintro ⟨v, hv, h570, he⟩
  have hyou := wsrch_pcWord (by decide : 570 < 2048)
  have hword := wsrch_pcWord hv
  rw [← he, if_neg h570] at hword
  rw [hword, if_pos rfl] at hyou
  omega

/-- The words of eight bytes are accepted if they can be found. -/
lemma IsHalf.etob (h : IsHalf ws) (hws : ∀ w ∈ ws, Known w) : (etob stale strOld ws).1 = 1 := by
  obtain ⟨d, hd, rfl⟩ := h
  rw [etob_groups stale hd, if_neg fun h570 => unknown_you (hws _ (List.mem_map_of_mem h570))]

end Half

/-! ### Phrases -/

section Phrase

variable {m₁ m₂ : Stale} {strKey : Bytes}

lemma eng2key_short (h : (splitSpace (trim s)).length ≠ 12) : eng2key m₁ m₂ strKey s = (-1, strKey) := by
  rw [eng2key]
  exact if_pos (Ne.symm h)

lemma eng2key_eq (hw : splitSpace (trim s) = ws) (h12 : ws.length = 12) : eng2key m₁ m₂ strKey s =
    if (etob m₁ [] (ws.take 6)).1 ≠ 1 then ((etob m₁ [] (ws.take 6)).1, strKey)
    else if (etob m₂ [] (ws.drop 6)).1 ≠ 1 then ((etob m₂ [] (ws.drop 6)).1, strKey)
    else (1, (etob m₁ [] (ws.take 6)).2 ++ (etob m₂ [] (ws.drop 6)).2) := by
  have hrest : (ws.drop 6).take 6 = ws.drop 6 := List.take_of_length_le (by rw [List.length_drop]; omega)
  rw [eng2key, hw]
  dsimp only
  rw [if_neg (by omega), hrest]

/-- The first half refused. -/
lemma eng2key_first (hw : splitSpace (trim s) = ws) (h12 : ws.length = 12) {rc : ℤ}
    (h : etobWords (fun _ => 0) 0 (ws.take 6) = .error rc) : eng2key m₁ m₂ strKey s = (rc, strKey) := by
  rw [eng2key_eq hw h12, etob_error (by simp [h12]) h, if_pos (etobWords_error h)]

/-- The second half refused. -/
lemma eng2key_second (hw : splitSpace (trim s) = ws) (h12 : ws.length = 12)
    (h1 : (etob m₁ [] (ws.take 6)).1 = 1) {rc : ℤ} (h : etobWords (fun _ => 0) 0 (ws.drop 6) = .error rc) :
    eng2key m₁ m₂ strKey s = (rc, strKey) := by
  rw [eng2key_eq hw h12, if_neg (not_not.2 h1), etob_error (by simp [h12]) h, if_pos (etobWords_error h)]

/-- The code 0 comes from one of the halves. -/
lemma half_of_zero (hw : splitSpace (trim s) = ws) (h12 : ws.length = 12) (h : (eng2key m₁ m₂ strKey s).1 = 0) :
    (etob m₁ [] (ws.take 6)).1 = 0 ∨ ((etob m₁ [] (ws.take 6)).1 = 1 ∧ (etob m₂ [] (ws.drop 6)).1 = 0) := by
  rw [eng2key_eq hw h12] at h
  split_ifs at h with h1 h2
  · exact .inl h
  · exact .inr ⟨not_not.1 h1, h⟩
  · exact absurd (show (1 : ℤ) = 0 from h) (by decide)

/-- The texts that are refused with one code in every spelling: not of twelve words; or the first word is
too long; or the loop stops in the first half, or in the second where the first half in capitals is the
words of eight bytes. -/
def RefusedAlike (ws : List Bytes) : Prop :=
  ws.length ≠ 12 ∨ (∃ w ∈ ws.head?, BadLength w) ∨ Stops (ws.take 6) ∨
    ((∀ w ∈ ws.take 6, Live w) ∧ IsHalf ((ws.take 6).map capitals) ∧ Stops (ws.drop 6))

lemma etobWords_badLength (h : BadLength w) (b : ℕ → UInt8) (p : ℕ) : etobWords b p (w :: ws) = .error (-1) := by
  rcases etobWords_cases b p w ws with ⟨-, e⟩ | ⟨hgood, -⟩ | ⟨i, hi, h570, rfl, -⟩
  · exact e
  · exact absurd h hgood
  · exact absurd h (not_badLength_of_known ⟨i, hi, h570, rfl⟩)

/-- **A refusal in every spelling.** -/
lemma refused_alike (h : RefusedAlike (splitSpace (trim s))) :
    ∃ rc, ∀ t, Respell s t → eng2key m₁ m₂ strKey t = (rc, strKey) := by
  by_cases h12 : (splitSpace (trim s)).length = 12
  · have hwords : ConsistsOf s (splitSpace (trim s)) := consistsOf_of_length (by omega)
    generalize splitSpace (trim s) = ws at h h12 hwords
    rcases h with h | ⟨w, hw, hbad⟩ | h | ⟨hlive, hhalf, h⟩
    · exact absurd h12 h
    · refine ⟨-1, fun t ht => ?_⟩
      obtain ⟨vs, hvs, hcon⟩ := consistsOf_respell hwords ht
      have hlen : vs.length = 12 := hvs.length_eq.symm.trans h12
      cases hvs with
      | nil => cases hw
      | @cons w' v ws vs hrw hr =>
        obtain rfl : w' = w := Option.some.inj hw
        exact eng2key_first hcon.words hlen (etobWords_badLength ((badLength_respell hrw).2 hbad) _ _)
    · refine ⟨0, fun t ht => ?_⟩
      obtain ⟨vs, hvs, hcon⟩ := consistsOf_respell hwords ht
      exact eng2key_first hcon.words (hvs.length_eq.symm.trans h12) (h.error (List.forall₂_take 6 hvs) _ _)
    · refine ⟨0, fun t ht => ?_⟩
      obtain ⟨vs, hvs, hcon⟩ := consistsOf_respell hwords ht
      have hlen : vs.length = 12 := hvs.length_eq.symm.trans h12
      have hsecond := h.error (List.forall₂_drop 6 hvs) (fun _ => 0) 0
      by_cases h1 : (etob m₁ [] (vs.take 6)).1 = 1
      · exact eng2key_second hcon.words hlen h1 hsecond
      · refine eng2key_first hcon.words hlen ?_
        rcases etobWords_live hlive (List.forall₂_take 6 hvs) (fun _ => 0) 0 with he | he
        · exact he
        · rw [he] at h1
          refine absurd (IsHalf.etob hhalf ?_) h1
          intro v hv
          obtain ⟨w, hw, rfl⟩ := List.mem_map.1 hv
          exact hlive w hw
  · exact ⟨-1, fun t ht => eng2key_short (by rwa [length_words_respell ht])⟩

/-- Where the first word can be found in some spelling, another one makes the code 0. -/
lemma exists_zero (hwords : ConsistsOf s (w :: ws)) (h12 : (w :: ws).length = 12) (hw : Live w) :
    ∃ t, Respell s t ∧ eng2key m₁ m₂ strKey t = (0, strKey) := by
  obtain ⟨v, hrw, hv⟩ := exists_unknown hw
  obtain ⟨t, ht, hcon⟩ := consistsOf_of_respell hwords (.cons hrw (List.forall₂_same.2 fun u _ => respell_refl u))
  refine ⟨t, ht, eng2key_first hcon.words h12 ?_⟩
  rcases etobWords_cases (fun _ => 0) 0 v (ws.take 5) with ⟨hbad, -⟩ | ⟨-, -, e⟩ | ⟨i, hi, h570, rfl, -⟩
  · rw [badLength_respell hrw] at hbad
    exact absurd hbad hw.not_badLength
  · exact e
  · exact absurd ⟨i, hi, h570, rfl⟩ hv

/-- **A text read alike in all spellings is refused**: one spelling makes the code 0, so the spelling in
capitals does, which says in which half the loop stops. -/
lemma refusedAlike_of_alike (h : ∀ t, Respell s t → eng2key m₁ m₂ strKey t = eng2key m₁ m₂ strKey s) :
    RefusedAlike (splitSpace (trim s)) := by
  by_cases h12 : (splitSpace (trim s)).length = 12
  · have hwords : ConsistsOf s (splitSpace (trim s)) := consistsOf_of_length (by omega)
    generalize splitSpace (trim s) = ws at h12 hwords
    cases ws with
    | nil => cases h12
    | cons w ws =>
      by_cases hbad : BadLength w
      · exact .inr (.inl ⟨w, rfl, hbad⟩)
      by_cases hw : Live w
      · right; right
        obtain ⟨t, ht, hzero⟩ := @exists_zero s w ws m₁ m₂ strKey hwords h12 hw
        obtain ⟨u, hu, hcon⟩ := consistsOf_of_respell hwords
          (List.forall₂_map_right_iff.2 (List.forall₂_same.2 fun v _ => respell_capitals v))
        have hcode : (eng2key m₁ m₂ strKey u).1 = 0 := by
          rw [h u hu, ← h t ht, hzero]
        have hlen : ((w :: ws).map capitals).length = 12 := by rw [List.length_map, h12]
        rcases half_of_zero hcon.words hlen hcode with h1 | ⟨h1, h2⟩
        · have he := error_of_etob (by simp at h12 ⊢; omega) h1
          rw [← List.map_take] at he
          exact .inl (stops_of_capitals he)
        · have hknown := known_of_etob (by simp at h12 ⊢; omega) h1
          have he := error_of_etob (by simp at h12 ⊢; omega) h2
          have hhalf := isHalf_of_etob h1
          rw [← List.map_take] at hknown hhalf
          rw [← List.map_drop] at he
          exact .inr ⟨fun v hv => hknown _ (List.mem_map_of_mem hv), hhalf, stops_of_capitals he⟩
      · exact .inr (.inr (.inl (.inl ⟨hbad, hw⟩)))
  · exact .inl h12

end Phrase

/-- **A text is read alike in all of its spellings exactly if it is refused with one code in all.** -/
theorem spellings_iff (m₁ m₂ : Stale) (strKey s : Bytes) :
    (∀ t, Respell s t → eng2key m₁ m₂ strKey t = eng2key m₁ m₂ strKey s) ↔ RefusedAlike (splitSpace (trim s)) := by
  constructor
  · exact refusedAlike_of_alike
  · intro h t ht
    obtain ⟨rc, hrc⟩ := @refused_alike s m₁ m₂ strKey h
    rw [hrc t ht, hrc s (respell_refl s)]

/-- The phrase of the key of zeros, and the same with its first letter small. -/
theorem small_letter_refused :
    let s := phrase (List.replicate 12 (pcWord 0))
    let t := phrase (cString "a" :: List.replicate 11 (pcWord 0))
    Respell s t ∧ eng2key (fun _ _ _ => 0) (fun _ _ _ => 0) [] s = (1, List.replicate 16 0) ∧
      eng2key (fun _ _ _ => 0) (fun _ _ _ => 0) [] t = (0, []) := by
  have hsmall : ¬ Known (cString "a") := fun h =>
    absurd (known_letters h 97 (List.mem_singleton.2 rfl)) (by decide)
  have hwords : ∀ w ∈ cString "a" :: List.replicate 11 (pcWord 0), IsWord w := by
    intro w hw
    rcases List.mem_cons.1 hw with rfl | hw
    · exact isWord_singleton rfl
    · rw [List.eq_of_mem_replicate hw]
      exact isWord_pcWord (by decide)
  have hsplit : splitSpace (trim (phrase (cString "a" :: List.replicate 11 (pcWord 0)))) =
      cString "a" :: List.replicate 11 (pcWord 0) := by
    rw [trim_phrase hwords]
    exact splitSpace_phrase hwords (List.cons_ne_nil _ _)
  refine ⟨.cons (.inr (.inl rfl)) (respell_refl _), eng2key_zeros _ _ _, eng2key_first hsplit rfl ?_⟩
  rcases etobWords_cases (fun _ => 0) 0 (cString "a") (List.replicate 5 (pcWord 0)) with
    ⟨hbad, -⟩ | ⟨-, -, e⟩ | ⟨i, hi, h570, he, -⟩
  · exact absurd hbad (by decide)
  · exact e
  · exact absurd ⟨i, hi, h570, he⟩ hsmall

end Newcoin.Rfc1751
