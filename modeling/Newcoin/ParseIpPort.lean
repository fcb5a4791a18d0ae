import Newcoin.Words
import Newcoin.ConnectionPool.PeerIps

/-!
# `parseIpPort`

An address and perhaps a port.  The pattern bounds the digits of the port no more than `int` does later:
a conversion that fails throws.

* `reEndpoint_iff`: the strings that match, and their captures.
* `parseIpPort_of_refused`, `parseIpPort_of_address`: what the function does.
* `safe_iff`: when the result is as it should be.
-/

namespace Newcoin

open ConnectionPool (lexicalCastInt)

def isDigit (c : UInt8) : Bool := 48 ≤ c && c ≤ 57

/-- The two captures of a match of `\s*(\S+)(?:\s+(\d+))?\s*` with the whole string; the second one is empty
where the group takes no part. -/
def reEndpoint (strSource : Bytes) : Option (Bytes × Bytes) :=
  let str := strSource.dropWhile isSpace
  let word := str.takeWhile (!isSpace ·)
  let rest := (str.dropWhile (!isSpace ·)).dropWhile isSpace
  if word ≠ [] ∧ (rest.dropWhile isDigit).all isSpace then some (word, rest.takeWhile isDigit) else none

/-- `boost::asio::ip::address`, as far as the function uses it. -/
structure Addresses (Address : Type) where
  /-- `from_string`, `none` with an error. -/
  from_string : Bytes → Option Address
  to_string : Address → Bytes

variable {Address : Type} (asio : Addresses Address)

/-- `parseIpPort`: what it returns, and the two arguments afterwards. -/
def parseIpPort (strSource strIP : Bytes) (iPort : ℤ) : Except Fault (Bool × Bytes × ℤ) :=
  match reEndpoint strSource with
  | none => .ok (false, strIP, iPort)
  | some (strIPRaw, strPortRaw) =>
    match asio.from_string strIPRaw with
    | none => .ok (false, strIP, iPort)
    | some addrIP => do
      let iPort ← if strPortRaw = [] then pure (-1) else lexicalCastInt strPortRaw
      return (true, asio.to_string addrIP, iPort)

/-! ### The pattern -/

/-- The strings that the pattern matches. -/
structure Endpoint (strSource word digits : Bytes) : Prop where
  isWord : IsWord word
  allDigits : ∀ c ∈ digits, isDigit c = true
  text : ∃ lead gap trail, strSource = lead ++ (word ++ (gap ++ (digits ++ trail))) ∧ Blank lead ∧ Blank gap ∧
    Blank trail ∧ (gap = [] → digits = [])

lemma isSpace_of_isDigit (c : UInt8) (h : isDigit c = true) : isSpace c = false := by
  revert c
  refine forall_byte ?_
  decide +kernel

lemma dropWhile_of_blank {b : Bytes} (hb : Blank b) : b.dropWhile isSpace = [] := List.dropWhile_eq_nil_iff.2 hb

/-- A run of characters ends where the next one is of another kind. -/
lemma takeWhile_run_append {p : UInt8 → Bool} {w s : Bytes} (hw : ∀ c ∈ w, p c = true)
    (hs : ∀ c ∈ s.head?, p c = false) : (w ++ s).takeWhile p = w ∧ (w ++ s).dropWhile p = s := by
  rw [List.takeWhile_append_of_pos hw, List.dropWhile_append_of_pos hw]
  cases s with
  | nil => exact ⟨List.append_nil w, rfl⟩
  | cons c s =>
    have hc : ¬ p c = true := by simp [hs c rfl]
    rw [List.takeWhile_cons_of_neg hc, List.dropWhile_cons_of_neg hc]
    exact ⟨List.append_nil w, rfl⟩

/-- What stands behind the white space that follows the word. -/
lemma dropWhile_gap {gap digits trail : Bytes} (hdigits : ∀ c ∈ digits, isDigit c = true) (hgap : Blank gap)
    (htrail : Blank trail) :
    ((gap ++ (digits ++ trail)).dropWhile isSpace).takeWhile isDigit = digits ∧
      Blank (((gap ++ (digits ++ trail)).dropWhile isSpace).dropWhile isDigit) := by
  rw [dropWhile_blank hgap]
  cases digits with
  | nil =>
    rw [List.nil_append, dropWhile_of_blank htrail]
    exact ⟨rfl, blank_nil⟩
  | cons c digits =>
    have hc : isSpace c = false := isSpace_of_isDigit c (hdigits c List.mem_cons_self)
    have hend : ∀ d ∈ trail.head?, isDigit d = false := by
      intro d hd
      by_contra hdigit
      have hspace := htrail d (List.mem_of_mem_head? hd)
      rw [isSpace_of_isDigit d (by simpa using hdigit)] at hspace
      cases hspace
    obtain ⟨htake, hdrop⟩ := takeWhile_run_append hdigits hend
    rw [List.cons_append, List.dropWhile_cons_of_neg (by simp [hc]), ← List.cons_append, htake, hdrop]
    exact ⟨rfl, htrail⟩

/-- **The pattern matches in one way only.** -/
lemma reEndpoint_of_endpoint {strSource word digits : Bytes} (h : Endpoint strSource word digits) :
    reEndpoint strSource = some (word, digits) := by
  obtain ⟨hword, hdigits, lead, gap, trail, rfl, hlead, hgap, htrail, hnone⟩ := h
  have hrest := dropWhile_gap hdigits hgap htrail
  have hnonspace : ∀ c ∈ word, (!isSpace c) = true := fun c hc => by simp [hword.2 c hc]
  have hend : ∀ c ∈ (gap ++ (digits ++ trail)).head?, (!isSpace c) = false := by
    intro c hc
    have hspace : isSpace c = true := by
      cases gap with
      | nil =>
        rw [hnone rfl] at hc
        exact htrail c (List.mem_of_mem_head? hc)
      | cons d gap => exact hgap c (List.mem_of_mem_head? hc)
    simp [hspace]
  obtain ⟨htake, hdrop⟩ := takeWhile_run_append hnonspace hend
  have hlead' : (lead ++ (word ++ (gap ++ (digits ++ trail)))).dropWhile isSpace =
      word ++ (gap ++ (digits ++ trail)) := by
    obtain ⟨c, cs, rfl⟩ := List.exists_cons_of_ne_nil hword.1
    rw [dropWhile_blank hlead, List.cons_append,
      List.dropWhile_cons_of_neg (by simp [hword.2 c List.mem_cons_self])]
  unfold reEndpoint
  simp only [hlead', htake, hdrop, hrest.1]
  exact if_pos ⟨hword.1, List.all_eq_true.2 hrest.2⟩

lemma endpoint_of_reEndpoint {strSource word digits : Bytes} (h : reEndpoint strSource = some (word, digits)) :
    Endpoint strSource word digits := by
  unfold reEndpoint at h
  dsimp only at h
  split_ifs at h with hmatch
  obtain ⟨rfl, rfl⟩ := Prod.mk.inj (Option.some.inj h)
  generalize hstr : strSource.dropWhile isSpace = str at hmatch
  generalize hspaced : str.dropWhile (!isSpace ·) = spaced at hmatch
  generalize hrest : spaced.dropWhile isSpace = rest at hmatch
  refine ⟨⟨hmatch.1, ?_⟩, ?_, strSource.takeWhile isSpace, spaced.takeWhile isSpace, rest.dropWhile isDigit, ?_, ?_, ?_,
    ?_, ?_⟩
  · intro c hc
    simpa using List.mem_takeWhile_imp hc
  · exact fun c hc => List.mem_takeWhile_imp hc
  · rw [List.takeWhile_append_dropWhile, ← hrest, List.takeWhile_append_dropWhile, ← hspaced,
      List.takeWhile_append_dropWhile, ← hstr, List.takeWhile_append_dropWhile]
  · exact fun c hc => List.mem_takeWhile_imp hc
  · exact fun c hc => List.mem_takeWhile_imp hc
  · exact List.all_eq_true.1 hmatch.2
  · intro hgap
    cases spaced with
    | nil => rw [← hrest]; rfl
    | cons c cs =>
      -- the word ends at white space only
      have hc := List.head?_dropWhile_not (!isSpace ·) str
      rw [hspaced] at hc
      have hspace : isSpace c = true := by simpa using hc
      rw [List.takeWhile_cons_of_pos hspace] at hgap
      cases hgap

/-- **What the pattern matches.** -/
theorem reEndpoint_iff {strSource word digits : Bytes} :
    reEndpoint strSource = some (word, digits) ↔ Endpoint strSource word digits :=
  ⟨endpoint_of_reEndpoint, reEndpoint_of_endpoint⟩

/-! ### The port -/

/-- The number that digits stand for. -/
def portNumber (strPortRaw : Bytes) : ℕ := strPortRaw.foldl (fun n c => 10 * n + (c.toNat - 48)) 0

lemma lexicalCastInt_of_digits {digits : Bytes} (hne : digits ≠ []) (hall : ∀ c ∈ digits, isDigit c = true) :
    lexicalCastInt digits =
      if portNumber digits < 2 ^ 31 then .ok (portNumber digits : ℤ) else .error .badLexicalCast := by
  have hsign : ∀ c : UInt8, isDigit c = false → digits.head? ≠ some c := by
    intro c hc hhead
    rw [hall c (List.mem_of_mem_head? hhead)] at hc
    cases hc
  have hminus := hsign 45 rfl
  have hplus := hsign 43 rfl
  have hdigits : digits.all (fun c => 48 ≤ c && c ≤ 57) = true := List.all_eq_true.2 hall
  unfold lexicalCastInt
  simp only [hminus, hplus, or_self, if_false, hne, hdigits, not_true_eq_false]
  change (if -2 ^ 31 ≤ (portNumber digits : ℤ) ∧ (portNumber digits : ℤ) < 2 ^ 31 then _ else _) = _
  refine if_congr ?_ rfl rfl
  norm_cast
  omega

variable {asio}

lemma parseIpPort_of_refused {strSource : Bytes}
    (h : ∀ word digits, reEndpoint strSource = some (word, digits) → asio.from_string word = none)
    (strIP : Bytes) (iPort : ℤ) : parseIpPort asio strSource strIP iPort = .ok (false, strIP, iPort) := by
  unfold parseIpPort
  cases hmatch : reEndpoint strSource with
  | none => rfl
  | some captures =>
    dsimp only
    rw [h captures.1 captures.2 hmatch]

/-- **An address is accepted** whatever its port is, and a port that is no `int` throws. -/
lemma parseIpPort_of_address {strSource word digits : Bytes} {addrIP : Address}
    (hmatch : reEndpoint strSource = some (word, digits)) (haddr : asio.from_string word = some addrIP)
    (strIP : Bytes) (iPort : ℤ) :
    parseIpPort asio strSource strIP iPort =
      if digits = [] then .ok (true, asio.to_string addrIP, -1)
      else if portNumber digits < 2 ^ 31 then .ok (true, asio.to_string addrIP, portNumber digits)
      else .error .badLexicalCast := by
  unfold parseIpPort
  rw [hmatch]
  dsimp only
  rw [haddr]
  by_cases hnone : digits = []
  · simp only [hnone, if_true]
    rfl
  · simp only [if_neg hnone]
    rw [lexicalCastInt_of_digits hnone (reEndpoint_iff.1 hmatch).allDigits]
    split <;> rfl

variable (asio)

/-- It throws. -/
def Throws (strSource : Bytes) : Prop :=
  ∃ word digits addrIP, reEndpoint strSource = some (word, digits) ∧ asio.from_string word = some addrIP ∧
    2 ^ 31 ≤ portNumber digits

/-- What the function is for: it returns; `false` leaves the arguments alone, and `true` comes with the number
of a port, or `-1` if the text gives none. -/
def Safe (strSource strIP : Bytes) (iPort : ℤ) : Prop :=
  ∃ bValid strIP' iPort', parseIpPort asio strSource strIP iPort = .ok (bValid, strIP', iPort') ∧
    (bValid = false → strIP' = strIP ∧ iPort' = iPort) ∧
    (bValid = true → ∃ word digits, reEndpoint strSource = some (word, digits) ∧
      (digits = [] → iPort' = -1) ∧ (digits ≠ [] → 0 ≤ iPort' ∧ iPort' ≤ 65535))

variable {asio}

/-- Either no address is accepted, or there is one. -/
lemma refused_or_address (strSource : Bytes) :
    (∀ word digits, reEndpoint strSource = some (word, digits) → asio.from_string word = none) ∨
      ∃ word digits addrIP, reEndpoint strSource = some (word, digits) ∧ asio.from_string word = some addrIP := by
  by_cases h : ∀ word digits, reEndpoint strSource = some (word, digits) → asio.from_string word = none
  · exact .inl h
  · simp only [not_forall] at h
    obtain ⟨word, digits, hmatch, haddr⟩ := h
    obtain ⟨addrIP, haddr⟩ := Option.ne_none_iff_exists'.1 haddr
    exact .inr ⟨word, digits, addrIP, hmatch, haddr⟩

lemma parseIpPort_error_iff {strSource strIP : Bytes} {iPort : ℤ} :
    parseIpPort asio strSource strIP iPort = .error .badLexicalCast ↔ Throws asio strSource := by
  rcases refused_or_address strSource with h | ⟨word, digits, addrIP, hmatch, haddr⟩
  · rw [parseIpPort_of_refused h]
    refine iff_of_false (by simp) ?_
    rintro ⟨word, digits, addrIP, hmatch, haddr, -⟩
    rw [h word digits hmatch] at haddr
    cases haddr
  · rw [parseIpPort_of_address hmatch haddr]
    constructor
    · intro herror
      refine ⟨word, digits, addrIP, hmatch, haddr, ?_⟩
      by_contra hlt
      rw [if_pos (not_le.1 hlt)] at herror
      split at herror <;> cases herror
    · rintro ⟨word', digits', addrIP', hmatch', -, hbig⟩
      obtain ⟨-, rfl⟩ := Prod.mk.inj (Option.some.inj (hmatch.symm.trans hmatch'))
      have hne : digits ≠ [] := by
        rintro rfl
        simp [portNumber] at hbig
      rw [if_neg hne, if_neg (not_lt.2 hbig)]

/-- **The function is safe** on exactly the texts whose port, behind an address that is accepted, is the number
of a port. -/
lemma safe_iff {strSource strIP : Bytes} {iPort : ℤ} :
    Safe asio strSource strIP iPort ↔ ∀ word digits addrIP, reEndpoint strSource = some (word, digits) →
      asio.from_string word = some addrIP → portNumber digits ≤ 65535 := by
  unfold Safe
  rcases refused_or_address strSource with h | ⟨word, digits, addrIP, hmatch, haddr⟩
  · rw [parseIpPort_of_refused h]
    refine iff_of_true ⟨false, strIP, iPort, rfl, fun _ => ⟨rfl, rfl⟩, by simp⟩ ?_
    intro word digits addrIP hmatch haddr
    rw [h word digits hmatch] at haddr
    cases haddr
  · rw [parseIpPort_of_address hmatch haddr]
    constructor
    · rintro ⟨bValid, strIP', iPort', hok, -, htrue⟩ word' digits' addrIP' hmatch' -
      obtain ⟨rfl, rfl⟩ := Prod.mk.inj (Option.some.inj (hmatch.symm.trans hmatch'))
      by_cases hne : digits = []
      · simp [hne, portNumber]
      · rw [if_neg hne] at hok
        split_ifs at hok with hint
        cases hok
        obtain ⟨word', digits', hmatch', -, hport⟩ := htrue rfl
        obtain ⟨-, rfl⟩ := Prod.mk.inj (Option.some.inj (hmatch.symm.trans hmatch'))
        exact_mod_cast (hport hne).2
    · intro hport
      have hsmall := hport word digits addrIP hmatch haddr
      by_cases hne : digits = []
      · exact ⟨true, _, -1, if_pos hne, by simp, fun _ => ⟨word, digits, hmatch, fun _ => rfl, fun h => absurd hne h⟩⟩
      · refine ⟨true, asio.to_string addrIP, portNumber digits, ?_, by simp, fun _ => ?_⟩
        · rw [if_neg hne, if_pos (by omega)]
        · exact ⟨word, digits, hmatch, fun h => absurd h hne, fun _ => ⟨by omega, by exact_mod_cast hsmall⟩⟩

end Newcoin
