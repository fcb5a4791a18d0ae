import Newcoin.SeedGeneric
import Newcoin.UniqueNodeList.Validators
import Newcoin.Words

/-!
# Entries of `[validators]` sections

An entry is the text of a node, or else it should be a domain; seeds are refused.  `setSeedGeneric`, which
is asked first, takes whatever is no address for a pass phrase, so every domain is refused as a seed
(`listRight_iff`).

* `processEntries_before`: where the loop is behind the entries that fit into the limit.
* `processValidators_ok`: what the whole call makes of the state that the loop ends in.
-/

namespace Newcoin.UniqueNodeList

open Lib.Sql NewcoinAddress

section Entries

variable (env : Crypto) (m₁ m₂ : Rfc1751.Stale)

/-- No setter accepts the text. -/
def NoAddress (strRefered : Bytes) : Prop :=
  ¬ TriedKind env strRefered ∧ (setSeedText env strRefered).1 = false ∧ (setSeed1751 m₁ m₂ clear strRefered).1 ≠ 1

/-- The text is that of a seed, as an address or in words. -/
def IsSeed (strRefered : Bytes) : Prop :=
  (setSeedText env strRefered).1 = true ∨ (setSeed1751 m₁ m₂ clear strRefered).1 = 1

/-- Fewer entries have been counted than the limit allows. -/
def WithinLimit (before : List Bytes) : Prop :=
  before.countP (accepts env m₁ m₂) < REFERRAL_VALIDATORS_MAX

instance (before : List Bytes) : Decidable (WithinLimit env m₁ m₂ before) := by
  unfold WithinLimit
  infer_instance

/-- What an entry does to the result of the call: a domain and a node are added, a seed changes nothing. -/
def EntryRight (vsWhy : ValidatorSource) (strRefered strComment : Bytes)
    (r r' : ValidatorReferrals × List NodeAdd × ℕ) : Prop :=
  (NoAddress env m₁ m₂ strRefered → r'.2.1 = r.2.1 ++ [.nodeAddDomain strRefered vsWhy strComment]) ∧
  ((setNodePublic env strRefered).1 = true →
    r'.2.1 = r.2.1 ++ [.nodeAddPublic (setNodePublic env strRefered).2 vsWhy strComment]) ∧
  (IsSeed env m₁ m₂ strRefered → r' = r)

variable {env m₁ m₂}

/-! ### Seeds -/

/-- The first word of an entry is one word. -/
lemma reReferral_word {strReferral strRefered strComment : Bytes}
    (h : reReferral strReferral = some (strRefered, strComment)) : IsWord strRefered := by
  unfold reReferral at h
  dsimp only at h
  split at h
  · cases h
  next hne =>
    obtain ⟨rfl, -⟩ := Prod.mk.inj (Option.some.inj h)
    exact ⟨hne, fun c hc => by simpa using List.mem_takeWhile_imp hc⟩

lemma setSeed1751_word {w : Bytes} (hw : IsWord w) : (setSeed1751 m₁ m₂ clear w).1 ≠ 1 := by
  have hsplit : splitSpace (trim w) = [w] :=
    ConsistsOf.words ⟨[], w, [], by simp, blank_nil, blank_nil, .one hw⟩
  have hcode : Rfc1751.eng2key m₁ m₂ [] w = (-1, []) := by
    rw [Rfc1751.eng2key, hsplit]
    exact if_pos (by rw [List.length_singleton]; decide)
  rw [setSeed1751, hcode]
  decide

/-- Seeds, and texts that are no address, are taken for seeds. -/
lemma seedGeneric_of_not_tried {w : Bytes} (hw : IsWord w) (h : ¬ TriedKind env w) :
    (setSeedGeneric env m₁ m₂ clear w).1 = true :=
  (setSeedGeneric_seed m₁ m₂ clear fun h' => h'.elim hw.1 h).1

/-- The text of a node is not. -/
lemma seedGeneric_of_node {w : Bytes} (h : (setNodePublic env w).1 = true) :
    (setSeedGeneric env m₁ m₂ clear w).1 = false := by
  rw [setSeedGeneric_refused (.inr (.inr (.inr (.inr (.inl h)))))]

/-! ### The loop -/

variable {strNodePublic : Bytes} {naNodePublic : NewcoinAddress} {vsWhy : ValidatorSource}

/-- An entry that is accepted is counted, and adds a node or a domain. -/
lemma processEntry_counted {strReferral strRefered strComment : Bytes}
    (hm : reReferral strReferral = some (strRefered, strComment))
    (h : (setSeedGeneric env m₁ m₂ clear strRefered).1 = false) (st : Collected) :
    ∃ st', processEntry env m₁ m₂ strNodePublic naNodePublic vsWhy st strReferral = .ok st' ∧
      st'.iValues = st.iValues + 1 ∧
      st'.adds = st.adds ++ [if (setNodePublic env strRefered).1 then
        .nodeAddPublic (setNodePublic env strRefered).2 vsWhy strComment
        else .nodeAddDomain strRefered vsWhy strComment] := by
  unfold processEntry
  simp only [hm, h, Bool.false_eq_true, if_false]
  split
  next hpublic =>
    have hv : (setNodePublic env strRefered).2.nVersion = VER_NODE_PUBLIC := SetString_eq env hpublic
    rw [humanNodePublic_eq env hv]
    split
    · exact ⟨_, rfl, rfl, rfl⟩
    · exact ⟨_, rfl, rfl, rfl⟩
  · exact ⟨_, rfl, rfl, rfl⟩

lemma accepts_eq_true {strReferral : Bytes} (h : accepts env m₁ m₂ strReferral = true) : ∃ strRefered strComment,
    reReferral strReferral = some (strRefered, strComment) ∧
      (setSeedGeneric env m₁ m₂ clear strRefered).1 = false := by
  obtain ⟨m, hm, hseed⟩ := (Option.any_eq_true _ _).1 h
  exact ⟨m.1, m.2, hm, by simpa using hseed⟩

lemma processEntry_ok (strReferral : Bytes) (st : Collected) :
    ∃ st', processEntry env m₁ m₂ strNodePublic naNodePublic vsWhy st strReferral = .ok st' ∧
      st'.iValues = st.iValues + (if accepts env m₁ m₂ strReferral then 1 else 0) ∧ st.adds <+: st'.adds := by
  cases h : accepts env m₁ m₂ strReferral with
  | false => exact ⟨st, processEntry_refused h st, rfl, List.prefix_rfl⟩
  | true =>
    obtain ⟨strRefered, strComment, hm, hseed⟩ := accepts_eq_true h
    obtain ⟨st', hrun, hcount, hadds⟩ :=
      @processEntry_counted env m₁ m₂ strNodePublic naNodePublic vsWhy _ _ _ hm hseed st
    exact ⟨st', hrun, hcount, hadds ▸ List.prefix_append _ _⟩

/-- The loop comes to its end, and takes back no call. -/
lemma processEntries_ok (entries : List Bytes) (st : Collected) :
    ∃ st', processEntries env m₁ m₂ strNodePublic naNodePublic vsWhy st entries = .ok st' ∧ st.adds <+: st'.adds := by
  induction entries generalizing st with
  | nil => exact ⟨st, rfl, List.prefix_rfl⟩
  | cons strReferral entries ih =>
    rw [processEntries]
    split
    · exact ⟨st, rfl, List.prefix_rfl⟩
    · obtain ⟨st₁, hrun, -, hadds⟩ :=
        @processEntry_ok env m₁ m₂ strNodePublic naNodePublic vsWhy strReferral st
      obtain ⟨st', hrest, hadds'⟩ := ih st₁
      refine ⟨st', ?_, hadds.trans hadds'⟩
      rw [hrun]
      exact hrest

/-- **Behind the entries within the limit** the loop goes on with what comes next. -/
lemma processEntries_before (before : List Bytes) (st : Collected)
    (h : st.iValues + before.countP (accepts env m₁ m₂) < REFERRAL_VALIDATORS_MAX) :
    ∃ st', st'.iValues < REFERRAL_VALIDATORS_MAX ∧ ∀ rest,
      processEntries env m₁ m₂ strNodePublic naNodePublic vsWhy st (before ++ rest) =
        processEntries env m₁ m₂ strNodePublic naNodePublic vsWhy st' rest := by
  induction before generalizing st with
  | nil => exact ⟨st, h, fun rest => rfl⟩
  | cons strReferral before ih =>
    obtain ⟨st₁, hrun, hcount, -⟩ := @processEntry_ok env m₁ m₂ strNodePublic naNodePublic vsWhy strReferral st
    rw [List.countP_cons] at h
    obtain ⟨st', hlt, hrest⟩ := ih st₁ (by rw [hcount]; omega)
    refine ⟨st', hlt, fun rest => ?_⟩
    rw [List.cons_append, processEntries, if_neg (by omega), hrun]
    exact hrest rest

/-! ### The call -/

/-- What the call returns when the loop ends in a state. -/
def Collected.result (strNodePublic : Bytes) (db : ValidatorReferrals) (st : Collected) :
    ValidatorReferrals × List NodeAdd × ℕ :=
  (if st.vstrValues = [] then deleteReferrals strNodePublic db
    else insertReferrals st.vstrValues (deleteReferrals strNodePublic db), st.adds, st.iValues)

variable {strValidatorsSrc : Bytes} {db : ValidatorReferrals}

/-- **The whole call** is the loop, for a node that is a valid public key or no valid key. -/
lemma processValidators_ok (hversion : naNodePublic.isValid env = true → naNodePublic.nVersion = VER_NODE_PUBLIC) :
    ∃ strNodePublic, ∀ (entries : List Bytes) (st : Collected),
      processEntries env m₁ m₂ strNodePublic naNodePublic vsWhy ⟨0, [], []⟩ entries = .ok st →
      processValidators env m₁ m₂ naNodePublic vsWhy strValidatorsSrc (some entries) db =
        .ok (st.result strNodePublic db) := by
  cases hvalid : naNodePublic.isValid env with
  | true =>
    refine ⟨naNodePublic.ToString env, fun entries st hrun => ?_⟩
    rw [processValidators, if_pos hvalid, humanNodePublic_eq env (hversion hvalid)]
    simp only [bind, Except.bind, Option.getD_some, hrun]
    rfl
  | false =>
    refine ⟨strValidatorsSrc, fun entries st hrun => ?_⟩
    rw [processValidators, hvalid, if_neg Bool.false_ne_true]
    simp only [bind, Except.bind, pure, Except.pure, Option.getD_some, hrun]
    rfl

variable (env m₁ m₂) in
/-- Each entry within the limit does what it should to the result, and its calls are among those of the list. -/
def ListRight (naNodePublic : NewcoinAddress) (vsWhy : ValidatorSource) (strValidatorsSrc : Bytes)
    (entries : List Bytes) (db : ValidatorReferrals) : Prop :=
  ∀ before e after strRefered strComment, entries = before ++ e :: after → WithinLimit env m₁ m₂ before →
    reReferral e = some (strRefered, strComment) → ∃ r r₁ r₂,
      processValidators env m₁ m₂ naNodePublic vsWhy strValidatorsSrc (some before) db = .ok r ∧
      processValidators env m₁ m₂ naNodePublic vsWhy strValidatorsSrc (some (before ++ [e])) db = .ok r₁ ∧
      processValidators env m₁ m₂ naNodePublic vsWhy strValidatorsSrc (some entries) db = .ok r₂ ∧
      r₁.2.1 <+: r₂.2.1 ∧ EntryRight env m₁ m₂ vsWhy strRefered strComment r r₁

/-- One entry is right exactly if some setter accepts its text. -/
lemma entryRight_iff {e strRefered strComment : Bytes} {st st₁ : Collected}
    (hm : reReferral e = some (strRefered, strComment))
    (hrun : processEntry env m₁ m₂ strNodePublic naNodePublic vsWhy st e = .ok st₁) :
    EntryRight env m₁ m₂ vsWhy strRefered strComment (st.result strNodePublic db) (st₁.result strNodePublic db) ↔
      ¬ NoAddress env m₁ m₂ strRefered := by
  have hw := reReferral_word hm
  cases hseed : (setSeedGeneric env m₁ m₂ clear strRefered).1 with
  | true =>
    have hacc : accepts env m₁ m₂ e = false := by
      rw [accepts, hm]
      simpa using hseed
    rw [processEntry_refused hacc] at hrun
    obtain rfl := Except.ok.inj hrun
    constructor
    · intro h hno
      have hadds := congrArg List.length (h.1 hno)
      rw [List.length_append, List.length_singleton] at hadds
      omega
    · intro hno
      refine ⟨fun h => absurd h hno, fun h => ?_, fun _ => rfl⟩
      rw [seedGeneric_of_node h] at hseed
      cases hseed
  | false =>
    have htried : TriedKind env strRefered := by
      by_contra h
      rw [seedGeneric_of_not_tried hw h] at hseed
      cases hseed
    refine iff_of_true ⟨fun h => absurd htried h.1, fun h => ?_, fun h => ?_⟩ fun h => h.1 htried
    · obtain ⟨st', hrun', -, hadds⟩ :=
        @processEntry_counted env m₁ m₂ strNodePublic naNodePublic vsWhy _ _ _ hm hseed st
      obtain rfl := Except.ok.inj (hrun'.symm.trans hrun)
      rw [if_pos h] at hadds
      exact hadds
    · rcases h with h | h
      · exact absurd htried (not_tried (.inr rfl) h)
      · exact absurd h (setSeed1751_word hw)

/-- **Every entry is treated as it should be exactly if no entry within the limit is a domain.** -/
theorem listRight_iff (naNodePublic : NewcoinAddress) (vsWhy : ValidatorSource) (strValidatorsSrc : Bytes)
    (entries : List Bytes) (db : ValidatorReferrals)
    (hversion : naNodePublic.isValid env = true → naNodePublic.nVersion = VER_NODE_PUBLIC) :
    ListRight env m₁ m₂ naNodePublic vsWhy strValidatorsSrc entries db ↔
      ∀ before e after strRefered strComment, entries = before ++ e :: after → WithinLimit env m₁ m₂ before →
        reReferral e = some (strRefered, strComment) → ¬ NoAddress env m₁ m₂ strRefered := by
  obtain ⟨strNodePublic, hcall⟩ :=
    @processValidators_ok env m₁ m₂ naNodePublic vsWhy strValidatorsSrc db hversion
  unfold ListRight
  refine forall_congr' fun before => forall_congr' fun e => forall_congr' fun after => forall_congr' fun strRefered =>
    forall_congr' fun strComment => forall_congr' fun hentries => forall_congr' fun hlimit => forall_congr' fun hm => ?_
  obtain ⟨st, hlt, hbefore⟩ := @processEntries_before env m₁ m₂ strNodePublic naNodePublic vsWhy before ⟨0, [], []⟩
    (by rw [Nat.zero_add]; exact hlimit)
  obtain ⟨st₁, hrun, -⟩ := @processEntry_ok env m₁ m₂ strNodePublic naNodePublic vsWhy e st
  obtain ⟨st₂, hafter, hadds⟩ := @processEntries_ok env m₁ m₂ strNodePublic naNodePublic vsWhy after st₁
  have hstep (rest : List Bytes) : processEntries env m₁ m₂ strNodePublic naNodePublic vsWhy st (e :: rest) =
      processEntries env m₁ m₂ strNodePublic naNodePublic vsWhy st₁ rest := by
    rw [processEntries, if_neg (by omega), hrun]
    rfl
  have h₀ := hcall before st (by simpa [processEntries] using hbefore [])
  have h₁ := hcall (before ++ [e]) st₁ ((hbefore [e]).trans (hstep []))
  have h₂ := hcall entries st₂ (by rw [hentries, hbefore, hstep, hafter])
  rw [← entryRight_iff hm hrun]
  constructor
  · rintro ⟨r, r₁, r₂, e₀, e₁, -, -, h⟩
    obtain rfl := Except.ok.inj (h₀.symm.trans e₀)
    obtain rfl := Except.ok.inj (h₁.symm.trans e₁)
    exact h
  · exact fun h => ⟨_, _, _, h₀, h₁, h₂, hadds, h⟩

end Entries

/-- The list of one node. -/
theorem listRight_iff_node :
    ListRight twoKeys (fun _ _ _ => 0) (fun _ _ _ => 0) referrer .vsReferral (cString "newcoin.txt") [referral]
        Table.empty ↔
      ∀ before e after strRefered strComment, [referral] = before ++ e :: after →
        WithinLimit twoKeys (fun _ _ _ => 0) (fun _ _ _ => 0) before →
        reReferral e = some (strRefered, strComment) →
        ¬ NoAddress twoKeys (fun _ _ _ => 0) (fun _ _ _ => 0) strRefered :=
  listRight_iff referrer .vsReferral (cString "newcoin.txt") [referral] Table.empty fun _ => rfl

/-- The list of one domain: nothing is queued. -/
theorem domain_not_queued :
    reReferral (cString "example.com first") = some (cString "example.com", cString "first") ∧
    NoAddress twoKeys (fun _ _ _ => 0) (fun _ _ _ => 0) (cString "example.com") ∧
    ∃ db', processValidators twoKeys (fun _ _ _ => 0) (fun _ _ _ => 0) referrer .vsReferral (cString "newcoin.txt")
      (some [cString "example.com first"]) Table.empty = .ok (db', [], 0) := by
  have hm : reReferral (cString "example.com first") = some (cString "example.com", cString "first") := by decide
  have htried : ¬ TriedKind twoKeys (cString "example.com") := by
    rintro (h | h | h | h | h)
    all_goals exact absurd h (by decide +kernel)
  have hacc : accepts twoKeys (fun _ _ _ => 0) (fun _ _ _ => 0) (cString "example.com first") = false := by
    rw [accepts, hm]
    simpa using seedGeneric_of_not_tried (reReferral_word hm) htried
  refine ⟨hm, ⟨htried, by decide +kernel, setSeed1751_word (reReferral_word hm)⟩, ?_⟩
  obtain ⟨strNodePublic, hcall⟩ := @processValidators_ok twoKeys (fun _ _ _ => 0) (fun _ _ _ => 0) referrer
    .vsReferral (cString "newcoin.txt") Table.empty fun _ => rfl
  refine ⟨_, hcall [cString "example.com first"] ⟨0, [], []⟩ ?_⟩
  rw [processEntries, if_neg (by decide), processEntry_refused hacc]
  rfl

end Newcoin.UniqueNodeList
