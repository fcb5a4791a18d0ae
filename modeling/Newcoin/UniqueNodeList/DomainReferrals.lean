import Newcoin.UniqueNodeList.SharedKeys
import Newcoin.UniqueNodeList.SeedSources
import Newcoin.UniqueNodeList.ValidatorEntries

/-!
# Referrals to domains

An entry that is a domain is stored as a referral as it stands, and as a seed domain in small letters.

* `StoredDomain.eq`: what is known of an entry that is stored.
* `Written.blobs`: the domains and the sources of seeds are blobs.
* `referralFound_iff`: scoring finds the domain of a referral exactly if the entry has no capitals.
-/

namespace Newcoin

open Lib.Sql

/-! ### Words -/

lemma trim_word {w : Bytes} (hw : IsWord w) : trim w = w := by
  have hlast : w.rdropWhile isSpace = w :=
    List.rdropWhile_eq_self_iff.2 fun hne => by simp [hw.2 _ (List.getLast_mem hne)]
  rw [trim, hlast]
  exact List.dropWhile_eq_self_iff.2 fun hlen => by simp [hw.2 _ (List.getElem_mem hlen)]

/-- What is written whole has a size that is an `int`. -/
lemma length_of_sqlEscapeInt {s : Bytes} (h : sqlEscapeInt s = some (sqlEscape s)) : s.length < 2 ^ 31 := by
  obtain ⟨hex, hhex, heq⟩ := Option.map_eq_some_iff.1 h
  unfold strHexInt at hhex
  split at hhex
  · cases hhex
  · obtain rfl := Option.some_inj.1 hhex
    have hlit := (literal_sqlEscape (s.take (toInt s.length).toNat)).symm.trans
      ((congrArg literal heq).trans (literal_sqlEscape s))
    have hlen := congrArg List.length (Value.blob.inj (Option.some_inj.1 hlit))
    have hint := (isInt_toInt s.length).2
    rw [List.length_take] at hlen
    omega

namespace UniqueNodeList

open NewcoinAddress

/-! ### The entry -/

/-- `processValidators` takes the entry for a domain, adds the domain, and stores its text as a referral of a
validator with a valid key. -/
def StoredDomain (env : Crypto) (m₁ m₂ : Rfc1751.Stale) (strReferral strRefered : Bytes) (Referral : Value) : Prop :=
  ∃ strNodePublic naNodePublic vsWhy strComment st v, naNodePublic.isValid env = true ∧
    processEntry env m₁ m₂ strNodePublic naNodePublic vsWhy st strReferral =
      .ok ⟨st.iValues + 1, st.adds ++ [.nodeAddDomain strRefered vsWhy strComment], st.vstrValues ++ [v]⟩ ∧
    sqlEscapeInt strRefered = some v.2.2 ∧ literal v.2.2 = some Referral

variable {env : Crypto} {m₁ m₂ : Rfc1751.Stale} {strReferral strRefered : Bytes} {Referral : Value}

lemma StoredDomain.eq (h : StoredDomain env m₁ m₂ strReferral strRefered Referral) :
    IsWord strRefered ∧ (setNodePublic env strRefered).1 = false ∧ strRefered.length < 2 ^ 31 ∧
      Referral = .blob strRefered := by
  obtain ⟨strNodePublic, naNodePublic, vsWhy, strComment, st, v, hvalid, hentry, hsize, hlit⟩ := h
  have hacc : accepts env m₁ m₂ strReferral = true := by
    by_contra hno
    rw [processEntry_refused (Bool.eq_false_iff.2 hno)] at hentry
    exact absurd (congrArg Collected.iValues (Except.ok.inj hentry)) (Nat.lt_succ_self _).ne
  obtain ⟨w, c, hm, hseed⟩ := accepts_eq_true hacc
  obtain ⟨st', hrun, -, hadds⟩ :=
    @processEntry_counted env m₁ m₂ strNodePublic naNodePublic vsWhy strReferral w c hm hseed st
  rw [Except.ok.inj (hrun.symm.trans hentry)] at hadds
  obtain hadd := List.cons.inj (List.append_cancel_left hadds) |>.1
  split at hadd
  · cases hadd
  next hpublic =>
    obtain ⟨rfl, -, -⟩ := NodeAdd.nodeAddDomain.inj hadd
    simp only [processEntry, hm, hseed, hpublic, hvalid, Bool.false_eq_true, if_false, if_true] at hentry
    have hvalue := List.append_cancel_left (congrArg Collected.vstrValues (Except.ok.inj hentry))
    obtain rfl := (List.cons.inj hvalue).1
    exact ⟨reReferral_word hm, by simpa using hpublic, length_of_sqlEscapeInt hsize,
      Option.some_inj.1 (hlit.symm.trans (literal_sqlEscape _))⟩

/-! ### The rows of domains -/

namespace SeedRecords

open Seeds (Functions)

/-- The name that `nodeAddDomain` makes of its argument. -/
def domainName (strDomain : Bytes) : Bytes := (trim strDomain).map toLower

/-- `r` is a row that `nodeAddDomain` looks for, and creates if there is none. -/
def IsRowOf (strDomain : Bytes) (r : DomainRow) : Prop :=
  literal (Database.escape (domainName strDomain)) = some r.Domain

/-- The tables that calls can leave: records are written, and rows deleted. -/
inductive Written (env : Crypto) : SeedDomains → Prop
  | empty : Written env Table.empty
  | set {db db' : SeedDomains} {sd : SeedDomain} (h : Written env db) (hset : setSeedDomains env sd db = .ok db') :
    Written env db'
  | delete {db : SeedDomains} (h : Written env db) (p : DomainRow → Bool) : Written env (db.delete p)

/-- The columns that scoring reads. -/
def DomainRow.scored (r : DomainRow) : SeedDomainRow := ⟨r.Domain, r.PublicKey, r.Source⟩

lemma setSeedDomains_cases {sd : SeedDomain} {db db' : SeedDomains} (h : setSeedDomains env sd db = .ok db') :
    db' = db ∨ ∃ row d, row.Domain = .blob d ∧ row.Source = .blob [sd.vsSource] ∧ db' = db.replace row := by
  unfold setSeedDomains at h
  obtain ⟨strPublicKey, -, h⟩ := bind_eq_ok.1 h
  rw [sqlEscapeInt_eq (by simp), Option.elim_some, Database.escape, sqlValue_eq (literal_escape _)] at h
  have hdb := Except.ok.inj h
  rw [Option.bind_some] at hdb
  cases hrow : seedRow strPublicKey (sqlEscape [sd.vsSource]) (Database.escape sd.strComment) sd.toSeedNode with
  | none =>
    rw [hrow] at hdb
    exact .inl hdb.symm
  | some row =>
    rw [hrow] at hdb
    have hsource := seedRow_source hrow
    rw [sqlValue_eq (literal_sqlEscape _)] at hsource
    exact .inr ⟨_, _, rfl, (Option.some_inj.1 hsource).symm, hdb.symm⟩

/-- **The domains and the sources of the rows are blobs**, so rows with one name are one row. -/
theorem Written.blobs {db : SeedDomains} (h : Written env db) :
    ∀ r ∈ db.rows, (∃ d, r.Domain = .blob d) ∧ ∃ c, r.Source = .blob [c] := by
  induction h with
  | empty => exact fun r hr => absurd hr List.not_mem_nil
  | set h hset ih =>
    intro r hr
    rcases setSeedDomains_cases hset with rfl | ⟨row, d, hd, hsource, rfl⟩
    · exact ih r hr
    · rcases Table.mem_replace.1 hr with rfl | ⟨hr, -⟩
      · exact ⟨⟨d, hd⟩, _, hsource⟩
      · exact ih r hr
  | delete h p ih => exact fun r hr => ih r (List.mem_of_mem_filter hr)

end SeedRecords

open SeedRecords

/-! ### Reading the referral -/

/-- The states in which `scoreCompute` reads referrals. -/
inductive Reading (env : Crypto) (db : Wallet) : ScoreState → Prop
  | seeded {st : ScoreState} (h : seeds db = .ok st) : Reading env db st
  | referral {st : ScoreState} (h : Reading env db st) (iNode : ℕ) (r : ValidatorReferral) :
    Reading env db (walkReferral env iNode st r)

/-- The text of the referral, wherever it is read, leads to the node of the key in `umDomainIdx`. -/
def ReferralFound (env : Crypto) (db : Wallet) (strReferral strPublicKey : Bytes) : Prop :=
  ∀ st, Reading env db st → ∃ iReferral, st.umDomainIdx strReferral = some iReferral ∧
    referral? env strReferral st = (some iReferral, st) ∧ keyAt st.vsnNodes iReferral = some strPublicKey

variable {db : Wallet} {st : ScoreState}

/-- No referral changes what a domain leads to. -/
lemma Reading.keeps (h : Reading env db st) : ∃ st₀, seeds db = .ok st₀ ∧ st.umDomainIdx = st₀.umDomainIdx ∧
    ∀ i k, keyAt st₀.vsnNodes i = some k → keyAt st.vsnNodes i = some k := by
  induction h with
  | seeded h => exact ⟨_, h, rfl, fun _ _ hi => hi⟩
  | @referral st h iNode r ih =>
    obtain ⟨st₀, hseeds, hdomain, hkeys⟩ := ih
    obtain ⟨hdomain', hkeys'⟩ := @walkReferral_keeps env iNode st r
    exact ⟨st₀, hseeds, hdomain'.trans hdomain, fun i k hi => hkeys' i k (hkeys i k hi)⟩

/-- A text that is no node's is looked up among the domains. -/
lemma referralFound_iff_domainKey (hseeds : seeds db = .ok st) {strReferral strPublicKey : Bytes}
    (hpublic : (setNodePublic env strReferral).1 = false) : ReferralFound env db strReferral strPublicKey ↔
      domainKey strReferral db.SeedDomains.rows.reverse = some strPublicKey := by
  rw [← (seeds_spec hseeds).entered_iff]
  constructor
  · intro h
    obtain ⟨i, hi, -, hk⟩ := h st (.seeded hseeds)
    exact ⟨i, hi, hk⟩
  · rintro ⟨i, hi, hk⟩ st' hst'
    obtain ⟨st₀, hseeds', hsame, hkeys⟩ := hst'.keeps
    obtain rfl := Except.ok.inj (hseeds.symm.trans hseeds')
    rw [← hsame] at hi
    refine ⟨i, hi, ?_, hkeys i _ hk⟩
    rw [referral?, if_neg (by simp [hpublic]), hi]

/-- **A stored referral leads to the domain it created exactly if the entry has no capitals**: `D` is the later
table of seed domains, `r` the row of the entry's domain in it. -/
theorem referralFound_iff {D : SeedDomains} {r : DomainRow} (hD : Written env D)
    (hdb : db.SeedDomains.rows = D.rows.map DomainRow.scored) (hseeds : seeds db = .ok st)
    (hentry : StoredDomain env m₁ m₂ strReferral strRefered Referral) (hr : r ∈ D.rows) (hrow : IsRowOf strRefered r)
    (hkey : r.PublicKey ≠ .null)
    (hsole : ∀ r' ∈ D.rows, r'.PublicKey ≠ .null → r'.PublicKey.bytes = r.PublicKey.bytes → r'.Domain = r.Domain) :
    ReferralFound env db Referral.bytes r.PublicKey.bytes ↔ strRefered.map toLower = strRefered := by
  obtain ⟨hword, hpublic, hsize, rfl⟩ := hentry.eq
  have hname : domainName strRefered = strRefered.map toLower := by rw [domainName, trim_word hword]
  have hDomain : r.Domain = .blob (strRefered.map toLower) := by
    rw [IsRowOf, hname, literal_escape_iff.2 (by rwa [List.length_map])] at hrow
    exact (Option.some_inj.1 hrow).symm
  have hleads (d k : Bytes) : LeadsTo db.SeedDomains.rows.reverse d k ↔
      ∃ r' ∈ D.rows, r'.PublicKey ≠ .null ∧ r'.Domain.bytes = d ∧ r'.PublicKey.bytes = k := by
    simp only [LeadsTo, List.mem_reverse, hdb, List.mem_map, exists_exists_and_eq_and, DomainRow.scored]
  rw [Value.bytes, referralFound_iff_domainKey hseeds hpublic]
  constructor
  · intro h
    obtain ⟨r', hr', hkey', hd, hk⟩ := (hleads _ _).1 (leadsTo_of_domainKey h)
    rw [hsole r' hr' hkey' hk, hDomain] at hd
    exact hd
  · intro hlower
    rw [hlower] at hDomain
    refine domainKey_of_sole ((hleads _ _).2 ⟨r, hr, hkey, by rw [hDomain]; rfl, rfl⟩) ?_ ?_
    · intro k hk
      obtain ⟨r', hr', -, hd, rfl⟩ := (hleads _ _).1 hk
      obtain ⟨⟨d, hblob⟩, -⟩ := hD.blobs r' hr'
      have hsame : r'.Domain = r.Domain := by
        rw [hblob, hDomain]
        rw [hblob] at hd
        exact congrArg Value.blob hd
      rw [List.inj_on_of_nodup_map D.nodup hr' hr hsame]
    · intro d hd
      obtain ⟨r', hr', hkey', rfl, hk⟩ := (hleads _ _).1 hd
      rw [hsole r' hr' hkey' hk, hDomain]
      rfl

/-! ### An account number -/

/-- The text of the account number zero. -/
def accountText : Bytes := cString "iiiiiiiiiiiiiiiiiiiiihoLvTp"

/-- The hashes of the two keys and of the account number. -/
def accountKeys : Crypto where
  SHA256Hash vch :=
    if vch = VER_ACCOUNT_ID :: List.replicate 20 0 then
      BaseUInt.ofBytes 256 [148, 160, 9, 17, 196, 218, 39, 249, 39, 23, 39, 255, 167, 161, 77, 141, 85, 136, 252, 15,
        255, 153, 100, 52, 14, 196, 6, 95, 56, 126, 98, 43]
    else twoKeys.SHA256Hash vch
  PassPhraseToKey := twoKeys.PassPhraseToKey
  SetPubKey := twoKeys.SetPubKey
  SetPrivateKeyU := twoKeys.SetPrivateKeyU

/-- The record of the domain, once a file with a key is fetched. -/
def accountSeed : SeedDomain where
  naPublicKey := referrer
  vsSource := ValidatorSource.vsReferral.toChar
  tpNext := none
  tpScan := none
  tpFetch := none
  iSha256 := BaseUInt.zero 256
  strComment := []
  strDomain := accountText.map toLower

def accountRow : DomainRow :=
  ⟨writtenRow (.blob referrerText) (.blob [ValidatorSource.vsReferral.toChar]) accountSeed.toSeedNode,
    .blob (accountText.map toLower)⟩

def accountDomains : SeedDomains := Table.empty.replace accountRow

def accountWallet : Wallet where
  SeedDomains := ⟨[accountRow.scored], List.nodup_singleton _⟩
  SeedNodes := Table.empty
  ValidatorReferrals := Table.empty
  TrustedNodes := Table.empty

lemma setNodePublic_accountText : (setNodePublic accountKeys accountText).1 = false := by decide +kernel

lemma storedDomain_account :
    StoredDomain accountKeys (fun _ _ _ => 0) (fun _ _ _ => 0) accountText accountText (.blob accountText) := by
  have hm : reReferral accountText = some (accountText, []) := by decide
  have hseed : (setSeedGeneric accountKeys (fun _ _ _ => 0) (fun _ _ _ => 0) clear accountText).1 = false := by
    decide +kernel
  have hvalid : referrer.isValid accountKeys = true := by decide
  refine ⟨referrerText, referrer, .vsReferral, [], ⟨0, [], []⟩, (quoted referrerText, 0, sqlEscape accountText),
    hvalid, ?_, sqlEscapeInt_eq (by decide), literal_sqlEscape _⟩
  simp only [processEntry, hm, hseed, setNodePublic_accountText, hvalid, Bool.false_eq_true, if_false, if_true]

lemma written_account : Written accountKeys accountDomains := by
  have hpublic : setNodePublic accountKeys referrerText = (true, referrer) := by decide +kernel
  have htext : referrer.ToString accountKeys = referrerText := ToString_of_text _ (by decide) hpublic
  have hvalid : referrer.isValid accountKeys = true := by decide
  obtain ⟨PublicKey, hset, hcolumn⟩ := @setSeedDomains_eq accountKeys accountSeed (fun _ => rfl) (by decide)
    (by decide) Table.empty
  have hkey : PublicKey = .blob referrerText := by
    rw [hcolumn (by rw [accountSeed, htext]; decide), keyColumn, accountSeed, if_pos hvalid, htext]
  rw [hkey] at hset
  exact .set .empty hset

theorem referralFound_iff_account : ReferralFound accountKeys accountWallet accountText referrerText ↔
    accountText.map toLower = accountText :=
  referralFound_iff written_account rfl rfl storedDomain_account List.mem_cons_self
    (literal_escape_iff.2 (by decide)) (by rintro ⟨⟩) fun r' hr' _ _ => by rw [List.mem_singleton.1 hr']

/-- The referral is ignored. -/
theorem account_referral_ignored :
    StoredDomain accountKeys (fun _ _ _ => 0) (fun _ _ _ => 0) accountText accountText (.blob accountText) ∧
    Written accountKeys accountDomains ∧ accountWallet.SeedDomains.rows = accountDomains.rows.map DomainRow.scored ∧
    (∀ r, r ∈ accountDomains.rows ↔ r = accountRow) ∧ IsRowOf accountText accountRow ∧
    accountRow.PublicKey = .blob referrerText ∧
    (∃ st, seeds accountWallet = .ok st ∧ referral? accountKeys accountText st = (none, st)) ∧
    ¬ ReferralFound accountKeys accountWallet accountText referrerText := by
  obtain ⟨st, hst, hnone⟩ : ∃ st, seeds accountWallet = .ok st ∧ st.umDomainIdx accountText = none := ⟨_, rfl, rfl⟩
  refine ⟨storedDomain_account, written_account, rfl, fun r => List.mem_singleton, literal_escape_iff.2 (by decide),
    rfl, ⟨st, hst, ?_⟩, fun h => ?_⟩
  · rw [referral?, if_neg (by simp [setNodePublic_accountText]), hnone]
  · obtain ⟨i, hi, -⟩ := h st (.seeded hst)
    rw [hnone] at hi
    cases hi

end UniqueNodeList

end Newcoin
