import Newcoin.AddressKinds

/-!
# Seeds made from any text

`setSeedGeneric` takes a text for a pass phrase only if it is no address of another kind than a seed.  It
tries five of the six kinds: the text of a generator becomes a seed (`setSeedGeneric_right_iff`).
-/

namespace Newcoin.NewcoinAddress

/-- The text is accepted as an address of some kind other than a seed. -/
def OtherKind (env : Crypto) (str : Bytes) : Prop := ∃ k : AddressKind, k ≠ .seed ∧ (k.set env str).1 = true

/-- The texts that `setSeedGeneric` refuses. -/
def TriedKind (env : Crypto) (str : Bytes) : Prop :=
  (setAccountID env str).1 ∨ (setAccountPublic env str).1 ∨ (setAccountPrivate env str).1 ∨
    (setNodePublic env str).1 ∨ (setNodePrivate env str).1

variable {env : Crypto} {m₁ m₂ : Rfc1751.Stale} {na : NewcoinAddress} {str : Bytes}

lemma TriedKind.otherKind (h : TriedKind env str) : OtherKind env str := by
  rcases h with h | h | h | h | h
  · exact ⟨.accountID, by rintro ⟨⟩, h⟩
  · exact ⟨.accountPublic, by rintro ⟨⟩, h⟩
  · exact ⟨.accountPrivate, by rintro ⟨⟩, h⟩
  · exact ⟨.nodePublic, by rintro ⟨⟩, h⟩
  · exact ⟨.nodePrivate, by rintro ⟨⟩, h⟩

lemma otherKind_iff : OtherKind env str ↔ TriedKind env str ∨ (setGenerator env str).1 := by
  constructor
  · rintro ⟨k, hk, h⟩
    cases k with
    | accountID => exact .inl (.inl h)
    | accountPublic => exact .inl (.inr (.inl h))
    | accountPrivate => exact .inl (.inr (.inr (.inl h)))
    | nodePublic => exact .inl (.inr (.inr (.inr (.inl h))))
    | nodePrivate => exact .inl (.inr (.inr (.inr (.inr h))))
    | generator => exact .inr h
    | seed => exact absurd rfl hk
  · rintro (h | h)
    · exact h.otherKind
    · exact ⟨.generator, by rintro ⟨⟩, h⟩

/-- A text of another version is none of the kinds that are tried. -/
lemma not_tried {version : UInt8} (hv : version = VER_FAMILY_GENERATOR ∨ version = VER_FAMILY_SEED)
    (h : (SetString env str version).1 = true) : ¬ TriedKind env str := by
  rintro (h' | h' | h' | h' | h')
  all_goals
    obtain rfl := version_unique h h'
    exact absurd hv (by decide)

lemma setSeedGeneric_refused (h : str = [] ∨ TriedKind env str) : setSeedGeneric env m₁ m₂ na str = (false, na) :=
  if_pos h

lemma setSeed_version (hash128 : BaseUInt 128) : (setSeed hash128).nVersion = VER_FAMILY_SEED := rfl

/-- **All else becomes a seed**: of the text of a seed, of words, or of a pass phrase. -/
lemma setSeedGeneric_seed (m₁ m₂ : Rfc1751.Stale) (na : NewcoinAddress)
    (h : ¬ (str = [] ∨ TriedKind env str)) :
    (setSeedGeneric env m₁ m₂ na str).1 = true ∧
      (setSeedGeneric env m₁ m₂ na str).2.nVersion = VER_FAMILY_SEED := by
  unfold TriedKind at h
  unfold setSeedGeneric
  rw [if_neg h]
  by_cases hseed : (setSeedText env str).1 = true
  · rw [if_pos hseed]
    exact ⟨rfl, SetString_eq env hseed⟩
  · rw [if_neg hseed]
    by_cases hwords : (Rfc1751.eng2key m₁ m₂ [] str).1 = 1
    · simp only [setSeed1751, if_pos hwords, setSeed_version, and_self]
    · simp only [setSeed1751, if_neg hwords, setSeed_version, and_self]

/-- A text of another kind is refused, and leaves the address as it was; any other text makes a seed. -/
def SeedGenericRight (env : Crypto) (m₁ m₂ : Rfc1751.Stale) (na : NewcoinAddress) (str : Bytes) : Prop :=
  (setSeedGeneric env m₁ m₂ na str = (false, na) ↔ str = [] ∨ OtherKind env str) ∧
  (¬ (str = [] ∨ OtherKind env str) →
    (setSeedGeneric env m₁ m₂ na str).1 = true ∧ (setSeedGeneric env m₁ m₂ na str).2.nVersion = VER_FAMILY_SEED)

/-- **Texts of other kinds are kept from becoming seeds, but for those of generators.** -/
theorem setSeedGeneric_right_iff (env : Crypto) (m₁ m₂ : Rfc1751.Stale) (na : NewcoinAddress) (str : Bytes) :
    SeedGenericRight env m₁ m₂ na str ↔ (setGenerator env str).1 = false := by
  constructor
  · intro h
    by_contra hgen
    rw [Bool.not_eq_false] at hgen
    have hne : str ≠ [] := by
      rintro rfl
      cases hgen
    have hnot : ¬ (str = [] ∨ TriedKind env str) := fun hrefused =>
      hrefused.elim hne (not_tried (.inl rfl) hgen)
    have hseed := (setSeedGeneric_seed m₁ m₂ na hnot).1
    rw [h.1.2 (.inr (otherKind_iff.2 (.inr hgen)))] at hseed
    cases hseed
  · intro hgen
    have htried : OtherKind env str ↔ TriedKind env str := by
      rw [otherKind_iff, hgen]
      simp
    unfold SeedGenericRight
    rw [htried]
    refine ⟨⟨fun h => ?_, setSeedGeneric_refused⟩, setSeedGeneric_seed m₁ m₂ na⟩
    by_contra hnot
    have hseed := (setSeedGeneric_seed m₁ m₂ na hnot).1
    rw [h] at hseed
    cases hseed

/-- The digests of the text of a generator. -/
def oneGenerator : Crypto where
  SHA256Hash vch := BaseUInt.ofBytes 256 <|
    if vch = [41, 3, 212, 156, 86, 225, 177, 133, 241, 190, 137, 154, 230, 106, 2, 239, 193, 127, 120, 234, 111,
        197, 58, 248, 94, 15, 229, 76, 110, 139, 127, 140, 113, 168] then
      [77, 205, 190, 183, 199, 115, 113, 91, 66, 48, 48, 212, 165, 248, 189, 8, 216, 50, 172, 6, 185, 245, 163, 19,
        139, 247, 102, 0, 42, 252, 254, 177]
    else []
  PassPhraseToKey passPhrase := BaseUInt.ofBytes 128 <|
    if passPhrase = cString "fhuJKihSDzV2SkjLn9qbwm5AaRmixDPfFsHDCP6yfDZWcxDFz4mt" then
      [148, 157, 155, 30, 125, 251, 66, 16, 94, 236, 2, 51, 16, 247, 32, 215]
    else []
  SetPubKey _ := true
  SetPrivateKeyU _ := true

/-- The generator of the source's tests becomes a seed. -/
theorem generator_becomes_seed :
    let str := cString "fhuJKihSDzV2SkjLn9qbwm5AaRmixDPfFsHDCP6yfDZWcxDFz4mt"
    (AddressKind.generator.set oneGenerator str).1 = true ∧
    setSeedGeneric oneGenerator (fun _ _ _ => 0) (fun _ _ _ => 0) clear str =
      (true, ⟨VER_FAMILY_SEED, [148, 157, 155, 30, 125, 251, 66, 16, 94, 236, 2, 51, 16, 247, 32, 215]⟩) := by
  decide +kernel

end Newcoin.NewcoinAddress
