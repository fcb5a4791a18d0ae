import Newcoin.Json.Grammar

/-!
# Every text of a value is read as the value

The reader takes any text of the grammar for the value that it stands for, whatever comes behind it
(`parse_spells`).
-/

namespace Newcoin.Json.Reader

variable {R : Type} {D : Doubles R}

/-! ### Numbers -/

/-- A number ends here. -/
def Stops (rest : Bytes) : Prop := ∀ c ∈ rest.head?, isNumberChar c = false

lemma scan_number {c : UInt8} (hc : (48 ≤ c ∧ c ≤ 57) ∨ c = 45) (s : Bytes) :
    scan c s = (.number, true, readNumber s) := by
  unfold scan
  split
  case h_13 => rw [if_pos hc]
  all_goals exact absurd hc (by decide)

lemma readNumber_append {t rest : Bytes} (ht : ∀ c ∈ t, isNumberChar c) (hrest : Stops rest) :
    readNumber (t ++ rest) = rest := by
  rw [readNumber, List.dropWhile_append_of_pos ht]
  cases rest with
  | nil => rfl
  | cons c rest => exact List.dropWhile_cons_of_neg (by simp [hrest c rfl])

lemma isNumberChar_digit {c : UInt8} (h : 48 ≤ c ∧ c ≤ 57) : isNumberChar c := by simp [isNumberChar, h]

lemma isBlank_eq_true {c : UInt8} (h : isBlank c) : c = 32 ∨ c = 9 ∨ c = 13 ∨ c = 10 := by simpa [isBlank] using h

/-- No blank begins a number. -/
lemma isBlank_number {c : UInt8} (hc : (48 ≤ c ∧ c ≤ 57) ∨ c = 45) : isBlank c = false := by
  refine Bool.eq_false_iff.2 fun h => ?_
  rcases isBlank_eq_true h with rfl | rfl | rfl | rfl <;> exact absurd hc (by decide)

/-- The token of a number. -/
lemma readToken_number {c : UInt8} {t rest : Bytes} (hc : (48 ≤ c ∧ c ≤ 57) ∨ c = 45) (ht : ∀ d ∈ t, isNumberChar d)
    (hrest : Stops rest) :
    ∃ token, readToken (c :: t ++ rest) = (token, rest) ∧ token.type = .number ∧ token.text = c :: t ∧
      token.length = (c :: t).length := by
  have hlength : (t ++ rest).length + 1 - rest.length = (c :: t).length := by
    simp only [List.length_cons, List.length_append]
    omega
  have hread := readToken_cons (isBlank_number hc) (t ++ rest)
  rw [scan_number hc, readNumber_append ht hrest] at hread
  refine ⟨_, hread, rfl, ?_, hlength⟩
  rw [Token.text, hlength, ← List.cons_append, List.take_left]

/-- The digits are the number, unless it is too large. -/
lemma decodeDigits_eq (token : Token) {threshold : UInt32} (hthreshold : threshold.toNat ≤ 429496729) {t : Bytes}
    (ht : ∀ c ∈ t, 48 ≤ c ∧ c ≤ 57) {value : UInt32} (hvalue : value.toNat < 10 * threshold.toNat) {n : ℕ}
    (hn : n = value.toNat * 10 ^ t.length + Lib.value 10 (t.map fun c => c.toNat - 48)) :
    decodeDigits token threshold value t = .ok (if n < 10 * threshold.toNat then some (UInt32.ofNat n) else none) := by
  induction t generalizing value with
  | nil =>
    have hn' : n = value.toNat := by simpa [Lib.value] using hn
    rw [hn', if_pos hvalue, UInt32.ofNat_toNat, decodeDigits]
  | cons c t ih =>
    obtain ⟨hc, ht⟩ := List.forall_mem_cons.1 ht
    have hdigit : ¬ (c < 48 ∨ 57 < c) := not_or.2 ⟨UInt8.not_lt.2 hc.1, UInt8.not_lt.2 hc.2⟩
    have hc57 : c.toNat ≤ 57 := hc.2
    rw [List.length_cons, List.map_cons, Lib.value_cons, List.length_map] at hn
    rw [decodeDigits, if_neg hdigit]
    by_cases hlarge : value ≥ threshold
    · have hlarge' : threshold.toNat ≤ value.toNat := hlarge
      have hpow : 0 < 10 ^ t.length := by positivity
      have hle : 10 * threshold.toNat ≤ value.toNat * 10 ^ (t.length + 1) := by
        rw [pow_succ]
        nlinarith
      rw [if_pos hlarge, if_neg (by omega)]
    · have hlt : value < threshold := UInt32.not_le.1 hlarge
      have hlt' : value.toNat < threshold.toNat := hlt
      have hnext := toNat_digit hthreshold hc.1 hc.2 hlt
      rw [if_neg hlarge]
      refine ih ht (by omega) ?_
      rw [hn, hnext]
      ring

/-- What tells a double is no digit. -/
lemma any_digits {t : Bytes} (ht : ∀ c ∈ t, 48 ≤ c ∧ c ≤ 57) :
    (t.any fun c => c = 46 ∨ c = 101 ∨ c = 69 ∨ c = 43 ∨ c = 45) = false := by
  refine List.any_eq_false.2 fun c hc h => ?_
  have hdigit := ht c hc
  simp only [decide_eq_true_eq] at h
  rcases h with rfl | rfl | rfl | rfl | rfl <;> exact absurd hdigit (by decide)

lemma isDouble_digits {t : Bytes} (ht : ∀ c ∈ t, 48 ≤ c ∧ c ≤ 57) : isDouble t = false := by
  cases t with
  | nil => rfl
  | cons c t =>
    have hall := any_digits ht
    rw [List.any_cons, Bool.or_eq_false_iff, decide_eq_false_iff_not] at hall
    rw [isDouble, hall.2]
    simp only [not_or] at hall
    simp [hall.1]

lemma isDouble_negative {t : Bytes} (ht : ∀ c ∈ t, 48 ≤ c ∧ c ≤ 57) : isDouble (45 :: t) = false := by
  rw [isDouble, any_digits ht]
  rfl

lemma decodedInteger_ofNat {n : ℕ} (hn : n < 2147483648) :
    (decodedInteger false (UInt32.ofNat n) : Value R) = .int (Int32.ofNat n) := by
  have hle : UInt32.ofNat n ≤ 2147483647 := by
    rw [UInt32.le_iff_toNat_le, UInt32.toNat_ofNat', Nat.mod_eq_of_lt (by omega)]
    exact Nat.le_of_lt_succ hn
  rw [decodedInteger, if_neg Bool.false_ne_true, if_pos hle]
  rfl

lemma decodedInteger_negative (n : ℕ) :
    (decodedInteger true (UInt32.ofNat n) : Value R) = .int (-Int32.ofNat n) := rfl

lemma decodedInteger_uint {n : ℕ} (hn : 2147483648 ≤ n) (hn' : n < 4294967290) :
    (decodedInteger false (UInt32.ofNat n) : Value R) = .uint (UInt32.ofNat n) := by
  have hle : ¬ UInt32.ofNat n ≤ 2147483647 := by
    rw [UInt32.le_iff_toNat_le, UInt32.toNat_ofNat', Nat.mod_eq_of_lt (by omega)]
    exact Nat.not_le_of_lt hn
  rw [decodedInteger, if_neg Bool.false_ne_true, if_neg hle]

lemma decodeDouble_eq {token : Token} {t : Bytes} {r : R} (htext : token.text = t) (htoken : token.length = t.length)
    (hlength : t.length ≠ 32) (hr : D.sscanf t = some r) : decodeDouble D token = .ok (.real r) := by
  rw [decodeDouble, if_neg (by omega), htext, hr]

/-- Digits, with or without a minus. -/
lemma decodeNumber_digits {token : Token} {t : Bytes} {n : ℕ} (h : IsDecimal t n) (isNegative : Bool)
    (htext : token.text = if isNegative then 45 :: t else t) :
    decodeNumber D token = if n < 10 * (threshold isNegative).toNat
      then .ok (decodedInteger isNegative (UInt32.ofNat n)) else decodeDouble D token := by
  obtain ⟨hne, ht, hn⟩ := h
  have hthreshold := threshold_toNat isNegative
  have hle : (threshold isNegative).toNat ≤ 429496729 := by split_ifs at hthreshold <;> omega
  have hzero : (0 : UInt32).toNat < 10 * (threshold isNegative).toNat := by
    split_ifs at hthreshold <;> simp <;> omega
  have hdigits := decodeDigits_eq token hle ht hzero (n := n) (by simp [hn])
  have hsign : decide (token.text.head? = some 45) = isNegative := by
    cases isNegative with
    | true => simp [htext]
    | false =>
      obtain ⟨c, t', rfl⟩ := List.exists_cons_of_ne_nil hne
      have hdigit := ht c List.mem_cons_self
      have hc : c ≠ 45 := by
        rintro rfl
        exact absurd hdigit (by decide)
      simpa [htext] using hc
  have hrest : (if isNegative then token.text.tail else token.text) = t := by
    cases isNegative <;> simp [htext]
  have hdouble : isDouble token.text = false := by
    cases isNegative with
    | true => simpa [htext] using isDouble_negative ht
    | false => simpa [htext] using isDouble_digits ht
  rw [decodeNumber, hdouble, if_neg Bool.false_ne_true]
  simp only [hsign, hrest, hdigits]
  by_cases hlarge : n < 10 * (threshold isNegative).toNat
  · simp only [if_pos hlarge]
  · simp only [if_neg hlarge]

lemma decodeNumber_text {token : Token} {t : Bytes} {v : Value R} (h : NumberText D t v) (htext : token.text = t)
    (htoken : token.length = t.length) : decodeNumber D token = .ok v := by
  cases h with
  | int h hn =>
    rw [decodeNumber_digits h false htext, threshold_toNat, if_pos (by simp; omega),
      decodedInteger_ofNat hn]
  | negative h hn =>
    rw [decodeNumber_digits h true htext, threshold_toNat, if_pos (by simp; omega),
      decodedInteger_negative]
  | uint h hn hn' =>
    rw [decodeNumber_digits h false htext, threshold_toNat, if_pos (by simp; omega),
      decodedInteger_uint hn hn']
  | large h hn hlength hr =>
    rw [decodeNumber_digits h false htext, threshold_toNat, if_neg (by simp; omega),
      decodeDouble_eq htext htoken hlength hr]
  | largeNegative h hn hlength hr =>
    rw [decodeNumber_digits h true htext, threshold_toNat, if_neg (by simp; omega),
      decodeDouble_eq htext htoken (by simpa using hlength) hr]
  | real h hlength hr =>
    obtain ⟨c, t', rfl, -, -, d, hd, hreal⟩ := h
    have hany : (t'.any fun c => c = 46 ∨ c = 101 ∨ c = 69 ∨ c = 43 ∨ c = 45) = true :=
      List.any_eq_true.2 ⟨d, hd, by simpa using hreal⟩
    rw [decodeNumber, htext, isDouble, hany, if_pos (by simp), decodeDouble_eq htext htoken hlength hr]

/-- A number begins with a digit or a minus, and all of it is taken for one. -/
lemma exists_of_numberText {t : Bytes} {v : Value R} (h : NumberText D t v) :
    ∃ c t', t = c :: t' ∧ ((48 ≤ c ∧ c ≤ 57) ∨ c = 45) ∧ ∀ d ∈ t', isNumberChar d := by
  have hdecimal : ∀ {t : Bytes} {n : ℕ}, IsDecimal t n →
      ∃ c t', t = c :: t' ∧ ((48 ≤ c ∧ c ≤ 57) ∨ c = 45) ∧ ∀ d ∈ t', isNumberChar d := by
    rintro t n ⟨hne, ht, -⟩
    obtain ⟨c, t', rfl⟩ := List.exists_cons_of_ne_nil hne
    obtain ⟨hc, ht⟩ := List.forall_mem_cons.1 ht
    exact ⟨c, t', rfl, .inl hc, fun d hd => isNumberChar_digit (ht d hd)⟩
  cases h with
  | int h | uint h | large h => exact hdecimal h
  | negative h | largeNegative h => exact ⟨45, _, rfl, .inr rfl, fun d hd => isNumberChar_digit (h.2.1 d hd)⟩
  | real h =>
    obtain ⟨c, t', rfl, hc, ht, -⟩ := h
    exact ⟨c, t', rfl, hc, ht⟩

/-! ### Gaps -/

lemma readToken_blank {c : UInt8} (hc : isBlank c) (s : Bytes) : readToken (c :: s) = readToken s := by
  rw [← readToken_skipSpaces, skipSpaces, List.dropWhile_cons_of_pos hc]
  exact readToken_skipSpaces s

lemma readCStyleComment_append {body : Bytes} (hbody : ¬ [42, 47] <:+: body) (s : Bytes) :
    readCStyleComment (body ++ 42 :: 47 :: s) = (true, s) := by
  induction body with
  | nil => rfl
  | cons c body ih =>
    have hend : ¬ (c = 42 ∧ (body ++ 42 :: 47 :: s).head? = some 47) := by
      rintro ⟨rfl, hhead⟩
      cases body with
      | nil => simp at hhead
      | cons d body =>
        obtain rfl : d = 47 := by simpa using hhead
        exact hbody ⟨[], body, rfl⟩
    rw [List.cons_append, readCStyleComment, if_neg hend]
    exact ih fun h => hbody (h.trans (List.suffix_cons c body).isInfix)

lemma readCppStyleComment_append {body : Bytes} (hbody : ∀ d ∈ body, d ≠ 13 ∧ d ≠ 10) {c : UInt8}
    (hc : c = 13 ∨ c = 10) (s : Bytes) : readCppStyleComment (body ++ c :: s) = (true, s) := by
  induction body with
  | nil => rw [List.nil_append, readCppStyleComment, if_pos hc]
  | cons d body ih =>
    obtain ⟨hd, hbody⟩ := List.forall_mem_cons.1 hbody
    rw [List.cons_append, readCppStyleComment, if_neg (not_or.2 hd), ih hbody]

/-- A comment is a token. -/
lemma readToken_comment {s s' : Bytes} (h : readComment s = (true, s')) :
    ∃ token, readToken (47 :: s) = (token, s') ∧ token.type = .comment := by
  have hscan : scan 47 s = (.comment, true, s') := by rw [scan, h]
  exact ⟨_, by rw [readToken_cons (by decide), hscan], rfl⟩

lemma readToken_cStyle {body : Bytes} (hbody : ¬ [42, 47] <:+: body) (s : Bytes) :
    ∃ token, readToken (47 :: 42 :: (body ++ 42 :: 47 :: s)) = (token, s) ∧ token.type = .comment :=
  readToken_comment (by rw [readComment, if_pos rfl, readCStyleComment_append hbody])

lemma readToken_cppStyle {body : Bytes} (hbody : ∀ d ∈ body, d ≠ 13 ∧ d ≠ 10) {c : UInt8} (hc : c = 13 ∨ c = 10)
    (s : Bytes) : ∃ token, readToken (47 :: 47 :: (body ++ c :: s)) = (token, s) ∧ token.type = .comment :=
  readToken_comment (by rw [readComment, if_neg (by decide), if_pos rfl, readCppStyleComment_append hbody hc])

lemma readToken_gap {g : Bytes} (hg : Gap false g) (s : Bytes) : readToken (g ++ s) = readToken s := by
  induction hg with
  | nil => rfl
  | blank hc _ ih => rw [List.cons_append, readToken_blank hc, ih]
  | cStyle hcomments | cppStyle hcomments => exact absurd hcomments Bool.false_ne_true

lemma skipComments_eq {fuel : ℕ} (hfuel : 0 < fuel) {s : Bytes} (hs : (readToken s).1.type ≠ .comment) :
    skipComments fuel s = some (readToken s) := by
  obtain ⟨fuel, rfl⟩ := Nat.exists_eq_succ_of_ne_zero hfuel.ne'
  rw [skipComments, if_neg hs]

lemma skipComments_comment {fuel : ℕ} {s s' : Bytes} (h : ∃ token, readToken s = (token, s') ∧ token.type = .comment) :
    skipComments (fuel + 1) s = skipComments fuel s' := by
  obtain ⟨token, htoken, htype⟩ := h
  rw [skipComments, htoken, if_pos htype]

/-- Comments are skipped, also where they are not allowed. -/
lemma skipComments_gap {comments : Bool} {g : Bytes} (hg : Gap comments g) {s : Bytes}
    (hs : (readToken s).1.type ≠ .comment) {fuel : ℕ} (hfuel : g.length < fuel) :
    skipComments fuel (g ++ s) = some (readToken s) := by
  induction hg generalizing fuel with
  | nil => exact skipComments_eq hfuel hs
  | blank hc _ ih =>
    obtain ⟨fuel, rfl⟩ := Nat.exists_eq_succ_of_ne_zero (Nat.ne_zero_of_lt hfuel)
    have hskip := ih ((Nat.lt_succ_self _).trans hfuel)
    rw [skipComments] at hskip ⊢
    rwa [List.cons_append, readToken_blank hc]
  | cStyle _ hbody _ ih =>
    obtain ⟨fuel, rfl⟩ := Nat.exists_eq_succ_of_ne_zero (Nat.ne_zero_of_lt hfuel)
    simp only [List.cons_append, List.append_assoc, List.length_cons, List.length_append] at hfuel ⊢
    rw [skipComments_comment (readToken_cStyle hbody _)]
    exact ih (by omega)
  | cppStyle _ hbody hc _ ih =>
    obtain ⟨fuel, rfl⟩ := Nat.exists_eq_succ_of_ne_zero (Nat.ne_zero_of_lt hfuel)
    simp only [List.cons_append, List.append_assoc, List.length_cons, List.length_append] at hfuel ⊢
    rw [skipComments_comment (readToken_cppStyle hbody hc _)]
    exact ih (by omega)

lemma skipCommentTokens_gap {features : Features} {g : Bytes} (hg : Gap features.allowComments g) {s : Bytes}
    (hs : (readToken s).1.type ≠ .comment) {fuel : ℕ} (hfuel : g.length < fuel) :
    skipCommentTokens features fuel (g ++ s) = some (readToken s) := by
  unfold skipCommentTokens
  split_ifs with hcomments
  · exact skipComments_gap hg hs hfuel
  · rw [readToken_gap (by simpa [hcomments] using hg)]

/-- What stands behind the comments of a gap is taken for the comma. -/
lemma skipCommaComments_gap {comments : Bool} {g : Bytes} (hg : Gap comments g) {s : Bytes}
    (hs : (readToken s).1.type ≠ .comment) {fuel : ℕ} (hfuel : g.length < fuel) :
    ((readToken (g ++ s)).1.type = .comment ∨ readToken (g ++ s) = readToken s) ∧
      skipCommaComments fuel (readToken (g ++ s)).1 (readToken (g ++ s)).2 = some (readToken s) := by
  induction hg with
  | nil => exact ⟨.inr rfl, by rw [List.nil_append, skipCommaComments, if_neg hs]⟩
  | blank hc _ ih =>
    rw [List.cons_append, readToken_blank hc]
    exact ih ((Nat.lt_succ_self _).trans hfuel)
  | cStyle _ hbody hg _ =>
    obtain ⟨token, htoken, htype⟩ := readToken_cStyle hbody (_ ++ s)
    simp only [List.cons_append, List.append_assoc, List.length_cons, List.length_append] at hfuel ⊢
    rw [htoken, skipCommaComments, if_pos htype]
    exact ⟨.inl htype, skipComments_gap hg hs (by omega)⟩
  | cppStyle _ hbody hc hg _ =>
    obtain ⟨token, htoken, htype⟩ := readToken_cppStyle hbody hc (_ ++ s)
    simp only [List.cons_append, List.append_assoc, List.length_cons, List.length_append] at hfuel ⊢
    rw [htoken, skipCommaComments, if_pos htype]
    exact ⟨.inl htype, skipComments_gap hg hs (by omega)⟩

/-! ### Values -/

variable (D) (features : Features)

/-- The value, the values of an array or the members of an object are read from their text, whatever comes behind
it. -/
def ReadsAs : Item R → Bytes → Prop
  | .value v, t => ∀ (g rest : Bytes) (fuel : ℕ) (value : Value R) (errors : List ErrorInfo),
      Gap features.allowComments g → Stops rest → 3 * (g ++ (t ++ rest)).length + 3 ≤ fuel →
      readValue D features fuel value ⟨g ++ (t ++ rest), errors⟩ = some (true, v, ⟨rest, errors⟩)
  | .elements values, t => ∀ (rest : Bytes) (fuel : ℕ) (acc : List (Value R)) (errors : List ErrorInfo),
      3 * (t ++ 93 :: rest).length + 4 ≤ fuel →
      readItems D features fuel acc ⟨t ++ 93 :: rest, errors⟩ = some (true, .array (acc ++ values), ⟨rest, errors⟩)
  | .members members, t => ∀ (rest : Bytes) (fuel : ℕ) (acc : Members R) (name : Bytes) (errors : List ErrorInfo),
      (members = [] → name = []) → 3 * (t ++ 125 :: rest).length + 5 ≤ fuel →
      readObject D features fuel acc name ⟨t ++ 125 :: rest, errors⟩ =
        some (true, .object (assignAll members acc), ⟨rest, errors⟩)

variable {D features}

lemma stops_cons {c : UInt8} (hc : isNumberChar c = false) (rest : Bytes) : Stops (c :: rest) := by
  intro d hd
  obtain rfl : c = d := by simpa using hd
  exact hc

/-- What separates two parts ends a number. -/
lemma stops_gap {comments : Bool} {g rest : Bytes} (hg : Gap comments g) (hrest : Stops rest) : Stops (g ++ rest) := by
  cases hg with
  | nil => exact hrest
  | blank hc _ =>
    refine stops_cons ?_ _
    rcases isBlank_eq_true hc with rfl | rfl | rfl | rfl <;> rfl
  | cStyle | cppStyle => exact stops_cons (by decide) _

/-- A token of one character. -/
lemma readToken_char {c : UInt8} (hc : isBlank c = false) {s : Bytes} {type : TokenType}
    (hscan : scan c s = (type, true, s)) : ∃ token, readToken (c :: s) = (token, s) ∧ token.type = type :=
  ⟨_, by rw [readToken_cons hc, hscan], rfl⟩

/-- A literal and what it is read as, once it is known how it is scanned. -/
lemma readToken_literal {c : UInt8} (hc : isBlank c = false) {type : TokenType} {pattern : Bytes}
    (hscan : ∀ s, scan c s = (type, matchPattern pattern s)) (rest : Bytes) :
    ∃ token, readToken (c :: pattern ++ rest) = (token, rest) ∧ token.type = type := by
  have hmatch : matchPattern pattern (pattern ++ rest) = (true, rest) := by
    rw [matchPattern, if_pos (List.isPrefixOf_iff_prefix.2 (List.prefix_append _ _)), List.drop_left]
  exact ⟨_, by rw [List.cons_append, readToken_cons hc, hscan, hmatch], rfl⟩

/-- The call for a value turns to its first token. -/
lemma readValue_gap {g s : Bytes} (hg : Gap features.allowComments g) {token : Token} {s' : Bytes}
    (hs : readToken s = (token, s')) (htoken : token.type ≠ .comment) {fuel : ℕ} (hfuel : g.length < fuel)
    (value : Value R) (errors : List ErrorInfo) :
    readValue D features (fuel + 1) value ⟨g ++ s, errors⟩ =
      match token.type with
      | .objectBegin => readObject D features fuel [] [] ⟨s', errors⟩
      | .arrayBegin => readArray D features fuel ⟨s', errors⟩
      | .number => some (assignDecoded (decodeNumber D token) value ⟨s', errors⟩)
      | .string =>
        some (assignDecoded ((decodeString token).map fun decoded => .string (.ofBytes decoded)) value ⟨s', errors⟩)
      | .true => some (true, .boolean true, ⟨s', errors⟩)
      | .false => some (true, .boolean false, ⟨s', errors⟩)
      | .null => some (true, .null, ⟨s', errors⟩)
      | _ => some (false, value,
          State.addError (cString "Syntax error: value, object or array expected.") token ⟨s', errors⟩) := by
  have hskip := skipCommentTokens_gap hg (s := s) (by rwa [hs]) hfuel
  rw [hs] at hskip
  rw [readValue, hskip]
  rfl

variable (D) in
/-- The token alone is the value. -/
def IsToken (token : Token) (v : Value R) : Prop :=
  match token.type with
  | .number => decodeNumber D token = .ok v
  | .string => ((decodeString token).map fun decoded => (.string (.ofBytes decoded) : Value R)) = .ok v
  | .true => v = .boolean true
  | .false => v = .boolean false
  | .null => v = .null
  | _ => False

lemma readsAs_token {t : Bytes} {v : Value R}
    (h : ∀ rest, Stops rest → ∃ token, readToken (t ++ rest) = (token, rest) ∧ IsToken D token v) :
    ReadsAs D features (.value v) t := by
  intro g rest fuel value errors hg hrest hfuel
  obtain ⟨token, htoken, hv⟩ := h rest hrest
  obtain ⟨fuel, rfl⟩ := Nat.exists_eq_succ_of_ne_zero (show fuel ≠ 0 by omega)
  rw [List.length_append] at hfuel
  have htype : token.type ≠ .comment := by
    rintro htype
    simp [IsToken, htype] at hv
  rw [readValue_gap hg htoken htype (by omega)]
  unfold IsToken at hv
  split at hv
  · next htype => simp only [htype, hv, assignDecoded]
  · next htype => simp only [htype, hv, assignDecoded]
  · next htype => simp only [htype, hv]
  · next htype => simp only [htype, hv]
  · next htype => simp only [htype, hv]
  · exact hv.elim

lemma readsAs_number {t : Bytes} {v : Value R} (h : NumberText D t v) : ReadsAs D features (.value v) t := by
  refine readsAs_token fun rest hrest => ?_
  obtain ⟨c, t', rfl, hc, ht⟩ := exists_of_numberText h
  obtain ⟨token, htoken, htype, htext, hlength⟩ := readToken_number hc ht hrest
  exact ⟨token, htoken, by rw [IsToken, htype]; exact decodeNumber_text h htext hlength⟩

lemma readsAs_string {t s : Bytes} (h : StringText t s) :
    ReadsAs D features (.value (.string (.ofBytes s))) (34 :: (t ++ [34])) := by
  refine readsAs_token fun rest _ => ?_
  obtain ⟨token, htoken, htype, hdecode⟩ := readToken_string h rest
  refine ⟨token, by simpa using htoken, ?_⟩
  rw [IsToken, htype]
  simp only [hdecode, Except.map]

lemma readsAs_literal {c : UInt8} (hc : isBlank c = false) (type : TokenType) (pattern : Bytes)
    (hscan : ∀ s, scan c s = (type, matchPattern pattern s)) {v : Value R}
    (hv : ∀ token : Token, token.type = type → IsToken D token v) :
    ReadsAs D features (.value v) (c :: pattern) := by
  refine readsAs_token fun rest _ => ?_
  obtain ⟨token, htoken, htype⟩ := readToken_literal hc hscan rest
  exact ⟨token, htoken, hv token htype⟩

/-! ### Arrays and objects -/

@[simp] lemma skipComments_skipSpaces (fuel : ℕ) (s : Bytes) :
    skipComments fuel (skipSpaces s) = skipComments fuel s := by
  cases fuel with
  | zero => rfl
  | succ fuel => rw [skipComments, skipComments, readToken_skipSpaces]

lemma readItems_skipSpaces (fuel : ℕ) (acc : List (Value R)) (s : Bytes) (errors : List ErrorInfo) :
    readItems D features fuel acc ⟨skipSpaces s, errors⟩ = readItems D features fuel acc ⟨s, errors⟩ := by
  have hvalue (fuel : ℕ) (v : Value R) :
      readValue D features fuel v ⟨skipSpaces s, errors⟩ = readValue D features fuel v ⟨s, errors⟩ := by
    cases fuel with
    | zero => rfl
    | succ fuel => simp only [readValue, skipCommentTokens, skipComments_skipSpaces, readToken_skipSpaces]
  cases fuel with
  | zero => rfl
  | succ fuel => rw [readItems, readItems, hvalue]

lemma head?_skipSpaces_gap {comments : Bool} {g : Bytes} (hg : Gap comments g) {c : UInt8} (hblank : isBlank c = false)
    (hc : c ≠ 93) (s : Bytes) : (skipSpaces (g ++ c :: s)).head? ≠ some 93 := by
  induction hg with
  | nil =>
    rw [List.nil_append, skipSpaces, List.dropWhile_cons_of_neg (by simp [hblank])]
    simpa using hc
  | blank hc' _ ih => rwa [List.cons_append, skipSpaces, List.dropWhile_cons_of_pos hc']
  | cStyle | cppStyle =>
    rw [List.cons_append, skipSpaces, List.dropWhile_cons_of_neg (by decide)]
    simp

/-- No value begins like the end of an array. -/
lemma exists_of_spells {comments : Bool} {v : Value R} {t : Bytes} (h : Spells D comments (.value v) t) :
    ∃ c t', t = c :: t' ∧ isBlank c = false ∧ c ≠ 93 := by
  cases h with
  | null | true | false => exact ⟨_, _, rfl, by decide, by decide⟩
  | number h =>
    obtain ⟨c, t', rfl, hc, -⟩ := exists_of_numberText h
    refine ⟨c, t', rfl, isBlank_number hc, ?_⟩
    rintro rfl
    exact absurd hc (by decide)
  | string | emptyArray | array | object => exact ⟨_, _, rfl, by decide, by decide⟩

lemma head?_elements {comments : Bool} {values : List (Value R)} {t : Bytes}
    (h : Spells D comments (.elements values) t) (s : Bytes) : (skipSpaces (t ++ s)).head? ≠ some 93 := by
  cases h with
  | lastElement hg h | element hg h =>
    obtain ⟨c, t', rfl, hblank, hc⟩ := exists_of_spells h
    simp only [List.append_assoc, List.cons_append]
    exact head?_skipSpaces_gap hg hblank hc _

lemma readsAs_emptyArray {g : Bytes} (hg : Gap false g) :
    ReadsAs D features (.value (.array [])) (91 :: (g ++ [93])) := by
  intro g' rest fuel value errors hg' _ hfuel
  obtain ⟨fuel, rfl⟩ := Nat.exists_eq_add_of_le (show 2 ≤ fuel by omega)
  simp only [List.length_append, List.length_cons] at hfuel
  obtain ⟨token, htoken, htype⟩ := readToken_char (c := 91) (by decide) (s := g ++ 93 :: rest) rfl
  have hskip : skipSpaces (g ++ 93 :: rest) = 93 :: rest := by
    clear hfuel htoken
    induction hg with
    | nil => rfl
    | blank hc _ ih => rwa [List.cons_append, skipSpaces, List.dropWhile_cons_of_pos hc]
    | cStyle hcomments | cppStyle hcomments => exact absurd hcomments Bool.false_ne_true
  obtain ⟨_, hend, -⟩ := readToken_char (c := 93) (by decide) (s := rest) rfl
  have hopen : (91 :: (g ++ [93])) ++ rest = 91 :: (g ++ 93 :: rest) := by simp
  rw [hopen, add_comm 2, readValue_gap hg' htoken (by simp [htype]) (by omega)]
  simp only [htype]
  rw [readArray]
  simp only [hskip, List.head?_cons, if_true, hend]

lemma readsAs_array {t : Bytes} {values : List (Value R)} (h : Spells D features.allowComments (.elements values) t)
    (ih : ReadsAs D features (.elements values) t) :
    ReadsAs D features (.value (.array values)) (91 :: (t ++ [93])) := by
  intro g rest fuel value errors hg _ hfuel
  obtain ⟨fuel, rfl⟩ := Nat.exists_eq_add_of_le (show 2 ≤ fuel by omega)
  simp only [List.length_append, List.length_cons] at hfuel
  obtain ⟨token, htoken, htype⟩ := readToken_char (c := 91) (by decide) (s := t ++ 93 :: rest) rfl
  have hopen : (91 :: (t ++ [93])) ++ rest = 91 :: (t ++ 93 :: rest) := by simp
  rw [hopen, add_comm 2, readValue_gap hg htoken (by simp [htype]) (by omega)]
  simp only [htype]
  rw [readArray, if_neg (head?_elements h _), readItems_skipSpaces]
  exact ih rest fuel [] errors (by simp only [List.length_append, List.length_cons]; omega)

lemma readsAs_object {t : Bytes} {members : Members R} (ih : ReadsAs D features (.members members) t) :
    ReadsAs D features (.value (.object (assignAll members []))) (123 :: (t ++ [125])) := by
  intro g rest fuel value errors hg _ hfuel
  obtain ⟨fuel, rfl⟩ := Nat.exists_eq_succ_of_ne_zero (show fuel ≠ 0 by omega)
  simp only [List.length_append, List.length_cons] at hfuel
  obtain ⟨token, htoken, htype⟩ := readToken_char (c := 123) (by decide) (s := t ++ 125 :: rest) rfl
  have hopen : (123 :: (t ++ [125])) ++ rest = 123 :: (t ++ 125 :: rest) := by simp
  rw [hopen, readValue_gap hg htoken (by simp [htype]) (by omega)]
  simp only [htype]
  exact ih rest fuel [] [] errors (fun _ => rfl) (by simp only [List.length_append, List.length_cons]; omega)

/-- One value of an array, and the token behind it. -/
lemma readItems_step {g t g' s : Bytes} {v : Value R} (hg : Gap features.allowComments g)
    (ih : ReadsAs D features (.value v) t) (hg' : Gap features.allowComments g') (hs : Stops s) {token : Token}
    {s' : Bytes} (htoken : readToken s = (token, s')) (htype : token.type ≠ .comment) {fuel : ℕ}
    (hfuel : 3 * (g ++ (t ++ (g' ++ s))).length + 4 ≤ fuel + 1) (acc : List (Value R)) (errors : List ErrorInfo) :
    readItems D features (fuel + 1) acc ⟨g ++ (t ++ (g' ++ s)), errors⟩ =
      if token.type = .arrayEnd then some (true, .array (acc ++ [v]), ⟨s', errors⟩)
      else readItems D features fuel (acc ++ [v]) ⟨s', errors⟩ := by
  have hread := ih g (g' ++ s) fuel .null errors hg (stops_gap hg' hs) (by omega)
  simp only [List.length_append] at hfuel
  have hskip := skipComments_gap hg' (s := s) (by rwa [htoken]) (show g'.length < fuel by omega)
  rw [htoken] at hskip
  have hcomma : ¬ (token.type = .arraySeparator ∧ token.type = .arrayEnd) := by
    rintro ⟨h, h'⟩
    exact absurd (h.symm.trans h') (by decide)
  rw [readItems, hread]
  simp only [Option.bind_eq_bind, Option.bind_some, Bool.not_true, Bool.false_eq_true, if_false, hskip, if_neg hcomma]

/-- One member of an object, and the token behind it. -/
lemma readObject_step {g n name' b g' t g'' s : Bytes} {v : Value R} (hg : Gap features.allowComments g)
    (hname : StringText n name') (hb : Gap false b) (hg' : Gap features.allowComments g')
    (ih : ReadsAs D features (.value v) t) (hg'' : Gap features.allowComments g'') (hs : Stops s) {token : Token}
    {s' : Bytes} (htoken : readToken s = (token, s')) (htype : token.type = .objectEnd ∨ token.type = .arraySeparator)
    {fuel : ℕ} (hfuel : 3 * (g ++ 34 :: (n ++ 34 :: (b ++ 58 :: (g' ++ (t ++ (g'' ++ s)))))).length + 5 ≤ fuel + 1)
    (acc : Members R) (name : Bytes) (errors : List ErrorInfo) :
    readObject D features (fuel + 1) acc name
        ⟨g ++ 34 :: (n ++ 34 :: (b ++ 58 :: (g' ++ (t ++ (g'' ++ s))))), errors⟩ =
      if token.type = .objectEnd then some (true, .object (assign (.ofBytes name') v acc), ⟨s', errors⟩)
      else readObject D features fuel (assign (.ofBytes name') v acc) name' ⟨s', errors⟩ := by
  obtain ⟨tokenName, hstring, hstringType, hdecode⟩ :=
    readToken_string hname (b ++ 58 :: (g' ++ (t ++ (g'' ++ s))))
  obtain ⟨colon, hcolon, hcolonType⟩ := readToken_char (c := 58) (by decide) (s := g' ++ (t ++ (g'' ++ s))) rfl
  have hcomment : token.type ≠ .comment := by
    rintro h
    simp [h] at htype
  have hread := ih g' (g'' ++ s) fuel (resolveReference (.ofBytes name') acc) errors hg' (stops_gap hg'' hs)
    (by simp only [List.length_append, List.length_cons] at hfuel ⊢; omega)
  simp only [List.length_append, List.length_cons] at hfuel
  have hskip := skipComments_gap hg (s := 34 :: (n ++ 34 :: (b ++ 58 :: (g' ++ (t ++ (g'' ++ s))))))
    (by simp [hstring, hstringType]) (show g.length < fuel by omega)
  obtain ⟨hseen, hcomma⟩ := skipCommaComments_gap hg'' (s := s) (by rwa [htoken]) (show g''.length < fuel by omega)
  rw [htoken] at hcomma
  have hbad : ¬ ((readToken (g'' ++ s)).1.type ≠ .objectEnd ∧ (readToken (g'' ++ s)).1.type ≠ .arraySeparator ∧
      (readToken (g'' ++ s)).1.type ≠ .comment) := by
    rintro ⟨h1, h2, h3⟩
    rcases hseen with h | h
    · exact h3 h
    · rw [h, htoken] at h1 h2
      exact htype.elim h1 h2
  rw [readObject, hskip, hstring]
  simp only [Option.bind_eq_bind, Option.bind_some, hstringType, reduceCtorEq, false_and, if_false, ne_eq,
    not_true_eq_false, hdecode, readToken_gap hb, hcolon, hcolonType, hread, Bool.not_true, Bool.false_eq_true,
    if_neg hbad, hcomma]

lemma readsAs_lastElement {g t g' : Bytes} {v : Value R} (hg : Gap features.allowComments g)
    (ih : ReadsAs D features (.value v) t) (hg' : Gap features.allowComments g') :
    ReadsAs D features (.elements [v]) (g ++ (t ++ g')) := by
  intro rest fuel acc errors hfuel
  obtain ⟨fuel, rfl⟩ := Nat.exists_eq_succ_of_ne_zero (show fuel ≠ 0 by omega)
  obtain ⟨token, htoken, htype⟩ := readToken_char (c := 93) (by decide) (s := rest) rfl
  have hsplit : (g ++ (t ++ g')) ++ 93 :: rest = g ++ (t ++ (g' ++ 93 :: rest)) := by simp
  rw [hsplit] at hfuel ⊢
  rw [readItems_step hg ih hg' (stops_cons (by decide) rest) htoken (by simp [htype]) hfuel, if_pos htype]

lemma readsAs_element {g t g' ts : Bytes} {v : Value R} {values : List (Value R)} (hg : Gap features.allowComments g)
    (ih : ReadsAs D features (.value v) t) (hg' : Gap features.allowComments g')
    (ihs : ReadsAs D features (.elements values) ts) :
    ReadsAs D features (.elements (v :: values)) (g ++ (t ++ (g' ++ 44 :: ts))) := by
  intro rest fuel acc errors hfuel
  obtain ⟨fuel, rfl⟩ := Nat.exists_eq_succ_of_ne_zero (show fuel ≠ 0 by omega)
  obtain ⟨token, htoken, htype⟩ := readToken_char (c := 44) (by decide) (s := ts ++ 93 :: rest) rfl
  have hsplit : (g ++ (t ++ (g' ++ 44 :: ts))) ++ 93 :: rest = g ++ (t ++ (g' ++ 44 :: (ts ++ 93 :: rest))) := by simp
  rw [hsplit] at hfuel ⊢
  rw [readItems_step hg ih hg' (stops_cons (by decide) _) htoken (by simp [htype]) hfuel, if_neg (by simp [htype]),
    ihs rest fuel _ errors (by simp only [List.length_append, List.length_cons] at hfuel ⊢; omega), List.append_assoc]
  rfl

lemma readsAs_noMember {g : Bytes} (hg : Gap features.allowComments g) : ReadsAs D features (.members []) g := by
  intro rest fuel acc name errors hname hfuel
  obtain ⟨fuel, rfl⟩ := Nat.exists_eq_succ_of_ne_zero (show fuel ≠ 0 by omega)
  obtain ⟨token, htoken, htype⟩ := readToken_char (c := 125) (by decide) (s := rest) rfl
  rw [List.length_append] at hfuel
  have hskip := skipComments_gap hg (s := 125 :: rest) (by simp [htoken, htype]) (show g.length < fuel by omega)
  rw [readObject, hskip, htoken]
  simp only [Option.bind_eq_bind, Option.bind_some, htype, hname rfl, and_self, if_true]
  rfl

section member

variable {g n name' b g' t g'' : Bytes} {v : Value R} (hg : Gap features.allowComments g) (hname : StringText n name')
  (hb : Gap false b) (hg' : Gap features.allowComments g') (ih : ReadsAs D features (.value v) t)
  (hg'' : Gap features.allowComments g'')
include hg hname hb hg' ih hg''

lemma readsAs_lastMember :
    ReadsAs D features (.members [(.ofBytes name', v)]) (g ++ 34 :: (n ++ 34 :: (b ++ 58 :: (g' ++ (t ++ g''))))) := by
  intro rest fuel acc name errors _ hfuel
  obtain ⟨fuel, rfl⟩ := Nat.exists_eq_succ_of_ne_zero (show fuel ≠ 0 by omega)
  obtain ⟨token, htoken, htype⟩ := readToken_char (c := 125) (by decide) (s := rest) rfl
  have hsplit : (g ++ 34 :: (n ++ 34 :: (b ++ 58 :: (g' ++ (t ++ g''))))) ++ 125 :: rest =
      g ++ 34 :: (n ++ 34 :: (b ++ 58 :: (g' ++ (t ++ (g'' ++ 125 :: rest))))) := by simp
  rw [hsplit] at hfuel ⊢
  rw [readObject_step hg hname hb hg' ih hg'' (stops_cons (by decide) rest) htoken (.inl htype) hfuel, if_pos htype]
  rfl

lemma readsAs_member {ts : Bytes} {m : CZString × Value R} {members : Members R}
    (ihs : ReadsAs D features (.members (m :: members)) ts) :
    ReadsAs D features (.members ((.ofBytes name', v) :: m :: members))
      (g ++ 34 :: (n ++ 34 :: (b ++ 58 :: (g' ++ (t ++ (g'' ++ 44 :: ts)))))) := by
  intro rest fuel acc name errors _ hfuel
  obtain ⟨fuel, rfl⟩ := Nat.exists_eq_succ_of_ne_zero (show fuel ≠ 0 by omega)
  obtain ⟨token, htoken, htype⟩ := readToken_char (c := 44) (by decide) (s := ts ++ 125 :: rest) rfl
  have hsplit : (g ++ 34 :: (n ++ 34 :: (b ++ 58 :: (g' ++ (t ++ (g'' ++ 44 :: ts)))))) ++ 125 :: rest =
      g ++ 34 :: (n ++ 34 :: (b ++ 58 :: (g' ++ (t ++ (g'' ++ 44 :: (ts ++ 125 :: rest)))))) := by simp
  rw [hsplit] at hfuel ⊢
  rw [readObject_step hg hname hb hg' ih hg'' (stops_cons (by decide) _) htoken (.inr htype) hfuel,
    if_neg (by simp [htype]), ihs rest fuel _ name' errors (by simp)
      (by simp only [List.length_append, List.length_cons] at hfuel ⊢; omega)]
  rfl

end member

/-- By the rules of the grammar; each part leaves off where the next one begins. -/
theorem readsAs_spells {item : Item R} {t : Bytes} (h : Spells D features.allowComments item t) :
    ReadsAs D features item t := by
  induction h with
  | null =>
    exact readsAs_literal (c := 110) (by decide) .null (cString "ull") (fun _ => rfl)
      fun token htype => by simp [IsToken, htype]
  | true =>
    exact readsAs_literal (c := 116) (by decide) .true (cString "rue") (fun _ => rfl)
      fun token htype => by simp [IsToken, htype]
  | false =>
    exact readsAs_literal (c := 102) (by decide) .false (cString "alse") (fun _ => rfl)
      fun token htype => by simp [IsToken, htype]
  | number h => exact readsAs_number h
  | string h => exact readsAs_string h
  | emptyArray hg => exact readsAs_emptyArray hg
  | array h ih => exact readsAs_array h ih
  | object _ ih => exact readsAs_object ih
  | lastElement hg _ hg' ih => exact readsAs_lastElement hg ih hg'
  | element hg _ hg' _ ih ihs => exact readsAs_element hg ih hg' ihs
  | noMember hg => exact readsAs_noMember hg
  | lastMember hg hname hb hg' _ hg'' ih => exact readsAs_lastMember hg hname hb hg' ih hg''
  | member hg hname hb hg' _ hg'' _ ih ihs => exact readsAs_member hg hname hb hg' ih hg'' ihs

/-- `parse` of a text of the grammar between gaps, with nothing of what comes behind it looked at. -/
lemma parse_eq (features : Features) {v : Value R} {t : Bytes} (h : Spells D features.allowComments (.value v) t) {g rest : Bytes}
    (hg : Gap features.allowComments g) (hrest : Stops rest)
    (hstrict : features.strictRoot = true → v.isArray = true ∨ v.isObject = true) (root : Value R) :
    parse D features (g ++ (t ++ rest)) root = some (true, v, []) := by
  have hread := readsAs_spells h g rest (3 * (g ++ (t ++ rest)).length + 3) root [] hg hrest le_rfl
  have hfuel : rest.length < 3 * (g ++ (t ++ rest)).length + 3 := by
    simp only [List.length_append]
    omega
  obtain ⟨token, current, hskip, -⟩ := exists_skipCommentTokens features hfuel
  have hroot : ¬ (features.strictRoot = true ∧ ¬ v.isArray = true ∧ ¬ v.isObject = true) := by
    rintro ⟨hfeature, harray, hobject⟩
    exact (hstrict hfeature).elim harray hobject
  simp only [parse, hread, hskip, Option.bind_eq_bind, Option.bind_some, if_neg hroot]
  rfl

end Newcoin.Json.Reader
