import Newcoin.Json.Reader
import Mathlib.Tactic.Linarith

/-!
# Every call of the reader

What any call does, whatever the document (`Outcome`):

* it never goes back, and goes on where it is successful, so that it always ends (`calls_end`);
* it adds an error where it fails, one and no more, and none where it is successful;
* the values it makes are ones that can be written and read again (`Canonical`).

What this says of `parse` is `exists_parse`.
-/

namespace Newcoin.Json.Reader

variable {R : Type}

/-! ### Tokens -/

lemma skipSpaces_le (s : Bytes) : (skipSpaces s).length ≤ s.length := (List.dropWhile_suffix _).length_le

lemma matchPattern_le (pattern s : Bytes) : (matchPattern pattern s).2.length ≤ s.length := by
  unfold matchPattern
  split_ifs <;> simp

lemma readCStyleComment_le (s : Bytes) : (readCStyleComment s).2.length ≤ s.length := by
  induction s with
  | nil => simp [readCStyleComment]
  | cons c s ih =>
    unfold readCStyleComment
    split_ifs
    · simp only [List.length_tail, List.length_cons]
      omega
    · exact ih.trans (Nat.le_succ _)

lemma readCppStyleComment_le (s : Bytes) : (readCppStyleComment s).2.length ≤ s.length := by
  induction s with
  | nil => simp [readCppStyleComment]
  | cons c s ih =>
    unfold readCppStyleComment
    split_ifs
    · simp
    · exact ih.trans (Nat.le_succ _)

lemma readComment_le (s : Bytes) : (readComment s).2.length ≤ s.length := by
  cases s with
  | nil => simp [readComment]
  | cons c s =>
    simp only [readComment]
    split_ifs
    · exact (readCStyleComment_le s).trans (Nat.le_succ _)
    · exact (readCppStyleComment_le s).trans (Nat.le_succ _)
    · simp

lemma readString_le (s : Bytes) : (readString s).2.length ≤ s.length := by
  fun_induction readString s with
  | case1 => simp
  | case2 => simp
  | case3 d s ih =>
    simp only [List.length_cons]
    omega
  | case4 c s => simp
  | case5 c s _ _ ih => exact ih.trans (Nat.le_succ _)

lemma scan_le (c : UInt8) (s : Bytes) : (scan c s).2.2.length ≤ s.length := by
  have hnumber : (readNumber s).length ≤ s.length := (List.dropWhile_suffix _).length_le
  unfold scan
  split
  case h_5 => exact readString_le s
  case h_6 => exact readComment_le s
  case h_7 | h_8 | h_9 => exact matchPattern_le _ s
  case h_13 =>
    split_ifs
    · exact hnumber
    · exact le_rfl
  all_goals exact le_rfl

theorem readToken_le (s : Bytes) : (readToken s).2.length ≤ s.length := by
  have hspaces := skipSpaces_le s
  unfold readToken
  split
  · simp
  · next c rest h =>
    rw [h, List.length_cons] at hspaces
    exact (scan_le c rest).trans ((Nat.le_succ _).trans hspaces)

/-- Each token but that of the end takes something. -/
theorem readToken_lt {s : Bytes} (h : (readToken s).1.type ≠ .endOfStream) : (readToken s).2.length < s.length := by
  have hspaces := skipSpaces_le s
  unfold readToken at h ⊢
  split at h
  · exact absurd rfl h
  · next c rest hrest =>
    rw [hrest, List.length_cons] at hspaces
    simp only
    exact (Nat.lt_succ_of_le (scan_le c rest)).trans_le hspaces

@[simp] lemma readToken_skipSpaces (s : Bytes) : readToken (skipSpaces s) = readToken s := by
  have hidem : skipSpaces (skipSpaces s) = skipSpaces s := List.dropWhile_idempotent _ _
  rw [readToken, hidem, readToken]

/-- A token behind blanks. -/
lemma readToken_cons {c : UInt8} (hc : isBlank c = false) (rest : Bytes) :
    readToken (c :: rest) =
      (⟨if (scan c rest).2.1 then (scan c rest).1 else .error, c :: rest, rest.length + 1 - (scan c rest).2.2.length⟩,
        (scan c rest).2.2) := by
  rw [readToken, skipSpaces, List.dropWhile_cons_of_neg (by simp [hc])]

/-- `t` is a token from `s` on, and `s'` what comes after it. -/
structure Taken (s : Bytes) (t : Token) (s' : Bytes) : Prop where
  le : s'.length ≤ s.length
  lt : t.type ≠ .endOfStream → s'.length < s.length

lemma taken_readToken (s : Bytes) : Taken s (readToken s).1 (readToken s).2 := ⟨readToken_le s, readToken_lt⟩

lemma exists_skipComments {fuel : ℕ} {s : Bytes} (h : s.length < fuel) :
    ∃ t s', skipComments fuel s = some (t, s') ∧ t.type ≠ .comment ∧ Taken s t s' := by
  induction fuel generalizing s with
  | zero => omega
  | succ fuel ih =>
    rw [skipComments]
    split_ifs with hcomment
    · have hlt := readToken_lt (s := s) (by simp [hcomment])
      obtain ⟨t, s', hskip, ht, hle, hlt'⟩ := ih (s := (readToken s).2) (by omega)
      exact ⟨t, s', hskip, ht, hle.trans hlt.le, fun h => (hlt' h).trans hlt⟩
    · exact ⟨_, _, rfl, hcomment, taken_readToken s⟩

lemma exists_skipCommaComments {fuel : ℕ} {s : Bytes} (h : s.length < fuel) (comma : Token) :
    ∃ t s', skipCommaComments fuel comma s = some (t, s') ∧ s'.length ≤ s.length := by
  unfold skipCommaComments
  split_ifs
  · obtain ⟨t, s', hskip, -, htaken⟩ := exists_skipComments h
    exact ⟨t, s', hskip, htaken.le⟩
  · exact ⟨_, _, rfl, le_rfl⟩

lemma exists_skipCommentTokens (features : Features) {fuel : ℕ} {s : Bytes} (h : s.length < fuel) :
    ∃ t s', skipCommentTokens features fuel s = some (t, s') ∧ Taken s t s' := by
  unfold skipCommentTokens
  split_ifs
  · obtain ⟨t, s', hskip, -, htaken⟩ := exists_skipComments h
    exact ⟨t, s', hskip, htaken⟩
  · exact ⟨_, _, rfl, taken_readToken s⟩

lemma exists_skipUntil (type : TokenType) {fuel : ℕ} {s : Bytes} (h : s.length < fuel) :
    ∃ s', skipUntil type fuel s = some s' ∧ s'.length ≤ s.length := by
  induction fuel generalizing s with
  | zero => omega
  | succ fuel ih =>
    rw [skipUntil]
    split_ifs with hend
    · exact ⟨_, rfl, readToken_le s⟩
    · have hlt := readToken_lt (s := s) fun h => hend (.inr h)
      obtain ⟨s', hskip, hle⟩ := ih (s := (readToken s).2) (by omega)
      exact ⟨s', hskip, hle.trans hlt.le⟩

/-! ### Numbers -/

/-- A number that is written and read again as what it is; an object in order. -/
def Canonical : Value R → Prop
  | .int i => -2147483640 < i.toInt
  | .uint u => 2147483647 < u.toNat ∧ u.toNat < 4294967290
  | .object members => InOrder members
  | _ => True

/-- A digit more, while the number is less than the threshold. -/
lemma toNat_digit {value threshold : UInt32} (hthreshold : threshold.toNat ≤ 429496729) {c : UInt8} (h48 : 48 ≤ c)
    (h57 : c ≤ 57) (hvalue : value < threshold) :
    (value * 10 + (c - 48).toUInt32).toNat = 10 * value.toNat + (c.toNat - 48) := by
  have hc : (c - 48).toNat = c.toNat - 48 := UInt8.toNat_sub_of_le c 48 h48
  have h57' : c.toNat ≤ 57 := h57
  have hlt : value.toNat < threshold.toNat := hvalue
  rw [UInt32.toNat_add, UInt32.toNat_mul, UInt8.toNat_toUInt32, hc]
  have h10 : (10 : UInt32).toNat = 10 := rfl
  rw [h10]
  omega

lemma decodeDigits_lt {token : Token} {threshold : UInt32} (hthreshold : threshold.toNat ≤ 429496729) {text : Bytes}
    {value value' : UInt32} (h : decodeDigits token threshold value text = .ok (some value'))
    (hvalue : value.toNat < 10 * threshold.toNat) : value'.toNat < 10 * threshold.toNat := by
  induction text generalizing value with
  | nil =>
    simp only [decodeDigits, Except.ok.injEq, Option.some.injEq] at h
    exact h ▸ hvalue
  | cons c text ih =>
    rw [decodeDigits] at h
    split_ifs at h with hc hlt
    · simp at h
    · rw [not_or] at hc
      refine ih h ?_
      have hlt' : value < threshold := UInt32.not_le.1 hlt
      have hlt'' : value.toNat < threshold.toNat := hlt'
      have hc57 : c ≤ 57 := UInt8.not_lt.1 hc.2
      have hc57' : c.toNat ≤ 57 := hc57
      rw [toNat_digit hthreshold (UInt8.not_lt.1 hc.1) hc57 hlt']
      omega

variable {D : Doubles R}

lemma threshold_toNat (isNegative : Bool) :
    (threshold isNegative).toNat = if isNegative then 214748364 else 429496729 := by
  cases isNegative <;> rfl

lemma toInt_toInt32 {value : UInt32} (h : value.toNat < 2147483648) : value.toInt32.toInt = value.toNat :=
  BitVec.toInt_eq_toNat_of_lt (x := value.toBitVec) (by simpa using by omega)

lemma toInt_neg_toInt32 {value : UInt32} (h : value.toNat < 2147483648) :
    (-value.toInt32).toInt = -(value.toNat : ℤ) := by
  rw [Int32.toInt_neg, toInt_toInt32 h]
  exact Int.bmod_eq_of_le (by omega) (by omega)

lemma canonical_decodedInteger {isNegative : Bool} {value : UInt32}
    (h : value.toNat < 10 * (threshold isNegative).toNat) :
    (decodedInteger isNegative value : Value R).All Canonical := by
  rw [threshold_toNat] at h
  unfold decodedInteger
  split_ifs at h ⊢ with hnegative hint
  · rw [all_int, Canonical, toInt_neg_toInt32 (by omega)]
    omega
  · have hint' : value.toNat ≤ 2147483647 := hint
    rw [all_int, Canonical, toInt_toInt32 (by omega)]
    omega
  · have hint' : 2147483647 < value.toNat := UInt32.not_le.1 hint
    exact ⟨hint', h⟩

lemma canonical_decodeDouble {token : Token} {v : Value R} (h : decodeDouble D token = .ok v) : v.All Canonical := by
  unfold decodeDouble at h
  split at h
  · cases h
    simp [Canonical]
  · cases h

lemma canonical_decodeNumber {token : Token} {v : Value R} (h : decodeNumber D token = .ok v) : v.All Canonical := by
  unfold decodeNumber at h
  split_ifs at h with hreal
  · exact canonical_decodeDouble h
  simp only at h
  split at h
  · cases h
  · exact canonical_decodeDouble h
  · next value hdigits =>
    cases h
    have hthreshold := threshold_toNat (decide (token.text.head? = some 45))
    exact canonical_decodedInteger
      (decodeDigits_lt (by split_ifs at hthreshold <;> omega) hdigits (by split_ifs at hthreshold <;> simp <;> omega))

/-! ### Values -/

/-- What a call makes of the value and the reader. -/
structure Outcome (s : State) (r : Read R) : Prop where
  le : r.2.2.current.length ≤ s.current.length
  lt : r.1 = true → r.2.2.current.length < s.current.length
  successful : r.1 = true → r.2.2.errors = s.errors
  failed : r.1 = false → ∃ e, r.2.2.errors = s.errors ++ [e]
  canonical : r.2.1.All Canonical

/-- A call from a location further on. -/
lemma Outcome.from_later {s s' : State} {r : Read R} (h : Outcome s' r) (hle : s'.current.length ≤ s.current.length)
    (herrors : s'.errors = s.errors) : Outcome s r where
  le := h.le.trans hle
  lt hr := (h.lt hr).trans_le hle
  successful hr := (h.successful hr).trans herrors
  failed hr := herrors ▸ h.failed hr
  canonical := h.canonical

/-- It fails, with one error more. -/
lemma exists_recoverFromError {fuel : ℕ} {s s' : State} (type : TokenType) {v : Value R} (hv : v.All Canonical)
    (hfuel : s'.current.length < fuel) (hle : s'.current.length ≤ s.current.length)
    (herrors : ∃ e, s'.errors = s.errors ++ [e]) :
    ∃ r, recoverFromError fuel type v s' = some r ∧ Outcome s r := by
  obtain ⟨current, hskip, hle'⟩ := exists_skipUntil type hfuel
  refine ⟨(false, v, { s' with current }), by simp [recoverFromError, hskip], ?_⟩
  exact ⟨hle'.trans hle, by simp, by simp, fun _ => herrors, hv⟩

lemma exists_addErrorAndRecover {fuel : ℕ} {s s' : State} (message : Bytes) (token : Token) (type : TokenType)
    {v : Value R} (hv : v.All Canonical) (hfuel : s'.current.length < fuel)
    (hle : s'.current.length ≤ s.current.length) (herrors : s'.errors = s.errors) :
    ∃ r, addErrorAndRecover fuel message token type v s' = some r ∧ Outcome s r :=
  exists_recoverFromError type hv hfuel hle ⟨_, congrArg (· ++ _) herrors⟩

lemma outcome_assignDecoded {decoded : Except ErrorInfo (Value R)} {v : Value R} {s s' : State} (hv : v.All Canonical)
    (hdecoded : ∀ v, decoded = .ok v → v.All Canonical) (hlt : s'.current.length < s.current.length)
    (herrors : s'.errors = s.errors) : Outcome s (assignDecoded decoded v s') := by
  cases decoded with
  | error e =>
    have hone : s'.errors ++ [e] = s.errors ++ [e] := by rw [herrors]
    exact ⟨hlt.le, by simp [assignDecoded], by simp [assignDecoded], fun _ => ⟨e, hone⟩, hv⟩
  | ok v' => exact ⟨hlt.le, fun _ => hlt, fun _ => herrors, by simp [assignDecoded], hdecoded v' rfl⟩

/-! ### The calls, with this much fuel -/

variable (D) (features : Features)

def ValueEnds (fuel : ℕ) : Prop :=
  ∀ (v : Value R) (s : State), v.All Canonical → 3 * s.current.length + 3 ≤ fuel →
    ∃ r, readValue D features fuel v s = some r ∧ Outcome s r

def ObjectEnds (fuel : ℕ) : Prop :=
  ∀ (members : Members R) (name : Bytes) (s : State), (Value.object members).All Canonical →
    3 * s.current.length + 5 ≤ fuel → ∃ r, readObject D features fuel members name s = some r ∧ Outcome s r

def ArrayEnds (fuel : ℕ) : Prop :=
  ∀ s : State, 3 * s.current.length + 5 ≤ fuel → ∃ r : Read R, readArray D features fuel s = some r ∧ Outcome s r

def ItemsEnd (fuel : ℕ) : Prop :=
  ∀ (values : List (Value R)) (s : State), (∀ v ∈ values, v.All Canonical) → 3 * s.current.length + 4 ≤ fuel →
    ∃ r, readItems D features fuel values s = some r ∧ Outcome s r

variable {D features}

lemma valueEnds_succ {fuel : ℕ} (hobject : ObjectEnds D features fuel) (harray : ArrayEnds D features fuel) :
    ValueEnds D features (fuel + 1) := by
  intro v s hv hfuel
  obtain ⟨token, current, hskip, htaken⟩ :=
    exists_skipCommentTokens features (show s.current.length < fuel by omega)
  have hle := htaken.le
  have hlt := htaken.lt
  rw [readValue, hskip]
  simp only [Option.bind_eq_bind, Option.bind_some]
  split
  · next htype =>
    obtain ⟨r, hr, hout⟩ := hobject [] [] { s with current } (by simp [Canonical, InOrder])
      (by have := hlt (by simp [htype]); simp only; omega)
    exact ⟨r, hr, hout.from_later hle rfl⟩
  · next htype =>
    obtain ⟨r, hr, hout⟩ := harray { s with current } (by have := hlt (by simp [htype]); simp only; omega)
    exact ⟨r, hr, hout.from_later hle rfl⟩
  · next htype =>
    exact ⟨_, rfl, outcome_assignDecoded hv (fun _ => canonical_decodeNumber) (hlt (by simp [htype])) rfl⟩
  · next htype =>
    refine ⟨_, rfl, outcome_assignDecoded hv (fun v' hv' => ?_) (hlt (by simp [htype])) rfl⟩
    cases hdecode : decodeString token with
    | error e => simp [hdecode, Except.map] at hv'
    | ok decoded =>
      simp only [hdecode, Except.map, Except.ok.injEq] at hv'
      simp [← hv', Canonical]
  · next htype => exact ⟨_, rfl, hle, fun _ => hlt (by simp [htype]), fun _ => rfl, by simp, by simp [Canonical]⟩
  · next htype => exact ⟨_, rfl, hle, fun _ => hlt (by simp [htype]), fun _ => rfl, by simp, by simp [Canonical]⟩
  · next htype => exact ⟨_, rfl, hle, fun _ => hlt (by simp [htype]), fun _ => rfl, by simp, by simp [Canonical]⟩
  · exact ⟨_, rfl, hle, by simp, by simp, fun _ => ⟨_, rfl⟩, hv⟩

lemma itemsEnd_succ {fuel : ℕ} (hvalue : ValueEnds D features fuel) (hitems : ItemsEnd D features fuel) :
    ItemsEnd D features (fuel + 1) := by
  intro values s hvalues hfuel
  obtain ⟨⟨ok, v, s₁⟩, hread, hout⟩ := hvalue .null s (by simp [Canonical]) (by omega)
  have hle := hout.le
  have hall : (Value.array (values ++ [v])).All Canonical := by
    simp only [all_array, Canonical, true_and, List.forall_mem_append, List.forall_mem_singleton]
    exact ⟨hvalues, hout.canonical⟩
  simp only at hle
  rw [readItems, hread]
  simp only [Option.bind_eq_bind, Option.bind_some]
  cases ok with
  | false => exact exists_recoverFromError .arrayEnd hall (by omega) hle (hout.failed rfl)
  | true =>
    have hlt : s₁.current.length < s.current.length := hout.lt rfl
    have herrors : s₁.errors = s.errors := hout.successful rfl
    obtain ⟨token, current, hskip, -, htaken⟩ := exists_skipComments (show s₁.current.length < fuel by omega)
    have hle₂ := htaken.le
    simp only [hskip, Option.bind_some, Bool.not_true, Bool.false_eq_true, if_false]
    split_ifs with hbad hend
    · exact absurd (hbad.1.symm.trans hbad.2) (by decide)
    · exact ⟨_, rfl, by simp only; omega, fun _ => by simp only; omega, fun _ => herrors, by simp, hall⟩
    · obtain ⟨r, hr, hout'⟩ := hitems (values ++ [v]) { s₁ with current } (all_array.1 hall).2 (by simp only; omega)
      exact ⟨r, hr, hout'.from_later (by simp only; omega) herrors⟩

lemma arrayEnds_succ {fuel : ℕ} (hitems : ItemsEnd D features fuel) : ArrayEnds D features (fuel + 1) := by
  intro s hfuel
  have hspaces := skipSpaces_le s.current
  rw [readArray]
  simp only
  split_ifs with hend
  · have hlt : (readToken (skipSpaces s.current)).2.length < (skipSpaces s.current).length := by
      refine readToken_lt ?_
      obtain ⟨rest, hrest⟩ := List.head?_eq_some_iff.1 hend
      rw [hrest, readToken_cons (by decide)]
      simp [scan]
    exact ⟨_, rfl, by simp only; omega, fun _ => by simp only; omega, fun _ => rfl, by simp, by simp [Canonical]⟩
  · obtain ⟨r, hr, hout⟩ := hitems [] { s with current := skipSpaces s.current } (by simp) (by simp only; omega)
    exact ⟨r, hr, hout.from_later hspaces rfl⟩

lemma objectEnds_succ {fuel : ℕ} (hvalue : ValueEnds D features fuel) (hobject : ObjectEnds D features fuel) :
    ObjectEnds D features (fuel + 1) := by
  intro members name s hmembers hfuel
  obtain ⟨tokenName, current, hskip, -, htaken⟩ := exists_skipComments (show s.current.length < fuel by omega)
  have hle := htaken.le
  have hlt := htaken.lt
  rw [readObject, hskip]
  simp only [Option.bind_eq_bind, Option.bind_some]
  by_cases hend : tokenName.type = .objectEnd ∧ name = []
  · rw [if_pos hend]
    exact ⟨_, rfl, hle, fun _ => hlt (by simp [hend.1]), fun _ => rfl, by simp, hmembers⟩
  rw [if_neg hend]
  by_cases hstring : tokenName.type = .string
  swap
  · rw [if_pos hstring]
    exact exists_addErrorAndRecover _ _ _ hmembers (by simp only; omega) hle rfl
  rw [if_neg (not_not.2 hstring)]
  have hlt' : current.length < s.current.length := hlt (by simp [hstring])
  cases decodeString tokenName with
  | error e => exact exists_recoverFromError _ hmembers (by simp only; omega) hle ⟨e, rfl⟩
  | ok name' =>
    have hcolon := readToken_le current
    simp only
    by_cases hmember : (readToken current).1.type = .memberSeparator
    swap
    · rw [if_pos hmember]
      exact exists_addErrorAndRecover _ _ _ hmembers (by simp only; omega) (by simp only; omega) rfl
    rw [if_neg (not_not.2 hmember)]
    have hold := all_resolveReference (by simp [Canonical]) (all_object.1 hmembers).2 (.ofBytes name')
    obtain ⟨⟨ok, v, s₁⟩, hread, hout⟩ := hvalue (resolveReference (.ofBytes name') members)
      { s with current := (readToken current).2 } hold (by simp only; omega)
    have hassigned : (Value.object (assign (.ofBytes name') v members)).All Canonical := by
      obtain ⟨horder, hall⟩ := all_object.1 hmembers
      refine all_object.2 ⟨horder.assign _ v, fun m hm => ?_⟩
      rcases mem_assign hm with rfl | hm
      · exact hout.canonical
      · exact hall m hm
    have hle₁ := hout.le
    simp only at hle₁
    simp only [hread, Option.bind_some]
    cases ok with
    | false => exact exists_recoverFromError _ hassigned (by omega) (by omega) (hout.failed rfl)
    | true =>
      have herrors : s₁.errors = s.errors := hout.successful rfl
      have hcomma := readToken_le s₁.current
      simp only [Bool.not_true, Bool.false_eq_true, if_false]
      split_ifs
      · exact exists_addErrorAndRecover _ _ _ hassigned (by simp only; omega) (by simp only; omega) herrors
      obtain ⟨token, current', hskip', hle₂⟩ := exists_skipCommaComments
        (show (readToken s₁.current).2.length < fuel by omega) (readToken s₁.current).1
      simp only [hskip', Option.bind_some]
      split_ifs
      · exact ⟨_, rfl, by simp only; omega, fun _ => by simp only; omega, fun _ => herrors, by simp, hassigned⟩
      · obtain ⟨r, hr, hout'⟩ := hobject _ name' { s₁ with current := current' } hassigned (by simp only; omega)
        exact ⟨r, hr, hout'.from_later (by simp only; omega) herrors⟩

/-- **Every call ends.** -/
theorem calls_end (fuel : ℕ) : ValueEnds D features fuel ∧ ObjectEnds D features fuel ∧
    ArrayEnds D features fuel ∧ ItemsEnd D features fuel := by
  induction fuel with
  | zero =>
    refine ⟨fun _ _ _ h => ?_, fun _ _ _ _ h => ?_, fun _ h => ?_, fun _ _ _ h => ?_⟩ <;> omega
  | succ fuel ih =>
    obtain ⟨hvalue, hobject, harray, hitems⟩ := ih
    exact ⟨valueEnds_succ hobject harray, objectEnds_succ hvalue hobject, arrayEnds_succ hitems,
      itemsEnd_succ hvalue hitems⟩

/-! ### `parse` -/

lemma getFormatedErrorMessages_eq_nil_iff (document : Bytes) (errors : List ErrorInfo) :
    getFormatedErrorMessages document errors = [] ↔ errors = [] := by
  cases errors with
  | nil => simp [getFormatedErrorMessages]
  | cons e errors =>
    have hstar : cString "* " = [42, 32] := by decide
    simp [getFormatedErrorMessages, hstar]

/-- Whether a document is accepted, the root and the errors. -/
structure Parsed (features : Features) (ok : Bool) (v : Value R) (errors : List ErrorInfo) : Prop where
  errors_iff : ok = true ↔ errors = []
  length : errors.length ≤ if features.strictRoot then 2 else 1
  canonical : v.All Canonical
  root : ok = true → features.strictRoot = true → v.isArray = true ∨ v.isObject = true

lemma exists_parse (D : Doubles R) (features : Features) (document : Bytes) {root : Value R}
    (hroot : root.All Canonical) :
    ∃ ok v errors, parse D features document root = some (ok, v, errors) ∧ Parsed features ok v errors := by
  have hends : ValueEnds D features (3 * document.length + 3) := (calls_end _).1
  obtain ⟨⟨ok, v, s⟩, hread, hout⟩ := hends root ⟨document, []⟩ hroot le_rfl
  have hle := hout.le
  simp only at hle
  obtain ⟨token, current, hskip, -⟩ :=
    exists_skipCommentTokens features (show s.current.length < 3 * document.length + 3 by omega)
  have herrors : (ok = true ↔ s.errors = []) ∧ s.errors.length ≤ 1 := by
    cases ok with
    | true =>
      have hnone : s.errors = [] := hout.successful rfl
      simp [hnone]
    | false =>
      obtain ⟨e, he⟩ := hout.failed rfl
      have hone : s.errors = [e] := he
      simp [hone]
  simp only [parse, hread, hskip, Option.bind_eq_bind, Option.bind_some]
  by_cases hstrict : features.strictRoot = true ∧ ¬ v.isArray = true ∧ ¬ v.isObject = true
  · rw [if_pos hstrict]
    refine ⟨_, _, _, rfl, by simp [State.addError], ?_, hout.canonical, by simp⟩
    rw [if_pos hstrict.1, State.addError, List.length_append]
    exact Nat.succ_le_succ herrors.2
  · rw [if_neg hstrict]
    refine ⟨_, _, _, rfl, herrors.1, ?_, hout.canonical, fun _ hroot => ?_⟩
    · split_ifs
      · exact herrors.2.trans (by omega)
      · exact herrors.2
    · by_contra hneither
      exact hstrict ⟨hroot, not_or.1 hneither⟩

end Newcoin.Json.Reader
