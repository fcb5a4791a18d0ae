import Newcoin.UniqueNodeList.SeedQueries
import Newcoin.UniqueNodeList.TrustChains

/-!
# From adds to scores

A scoring after any run of adds and fetches.  The lists that validators publish are stored and never found, so
points come from seeds alone.

* `WrittenReferrals.unread`: no query finds a referral that was stored.
* `run_columns`: the keys in the tables are texts of public keys.
* `score_of_adds`: a validator has the points of the best source it was added from.
-/

namespace Newcoin.UniqueNodeList

open Lib.Sql NewcoinAddress

/-! ### Lists that are not found -/

variable {env : Crypto}

/-- The tables that calls of `processValidators` can leave. -/
inductive WrittenReferrals (env : Crypto) : ValidatorReferrals → Prop
  | empty : WrittenReferrals env Table.empty
  | process {db : ValidatorReferrals} {m₁ m₂ : Rfc1751.Stale} {naNodePublic : NewcoinAddress}
    {vsWhy : ValidatorSource} {strValidatorsSrc : Bytes} {entries : Option (List Bytes)}
    {out : ValidatorReferrals × List NodeAdd × ℕ} (h : WrittenReferrals env db)
    (hrun : processValidators env m₁ m₂ naNodePublic vsWhy strValidatorsSrc entries db = .ok out) :
    WrittenReferrals env out.1

section

variable {m₁ m₂ : Rfc1751.Stale} {strNodePublic : Bytes} {naNodePublic : NewcoinAddress} {vsWhy : ValidatorSource}

/-- Without a valid key no rows are collected. -/
lemma processEntry_values (hvalid : naNodePublic.isValid env = false) {st st' : Collected} {strReferral : Bytes}
    (h : processEntry env m₁ m₂ strNodePublic naNodePublic vsWhy st strReferral = .ok st') :
    st'.vstrValues = st.vstrValues := by
  unfold processEntry at h
  simp only [hvalid, Bool.false_eq_true, if_false] at h
  split at h
  · rw [Except.ok.inj h]
  · split at h
    · rw [Except.ok.inj h]
    · split at h
      · rw [← Except.ok.inj h]
        exact List.append_nil _
      · rw [← Except.ok.inj h]
        exact List.append_nil _

lemma processEntries_values (hvalid : naNodePublic.isValid env = false) {entries : List Bytes} {st st' : Collected}
    (h : processEntries env m₁ m₂ strNodePublic naNodePublic vsWhy st entries = .ok st') :
    st'.vstrValues = st.vstrValues := by
  induction entries generalizing st with
  | nil => rw [← Except.ok.inj h]
  | cons strReferral entries ih =>
    rw [processEntries] at h
    split_ifs at h
    · rw [← Except.ok.inj h]
    · obtain ⟨st₁, hentry, hrest⟩ := bind_eq_ok.1 h
      exact (ih hrest).trans (processEntry_values hvalid hentry)

end

/-- Validators are stored as texts. -/
lemma WrittenReferrals.texts {db : ValidatorReferrals} (h : WrittenReferrals env db) :
    ∀ r ∈ db.rows, ∃ s, r.Validator = .text s := by
  induction h with
  | empty => exact fun r hr => absurd hr List.not_mem_nil
  | @process db m₁ m₂ naNodePublic vsWhy strValidatorsSrc entries out h hrun ih =>
    cases hvalid : naNodePublic.isValid env with
    | true =>
      have hversion : naNodePublic.nVersion = VER_NODE_PUBLIC := by
        rw [processValidators, if_pos hvalid] at hrun
        obtain ⟨strPublic, hpublic, -⟩ := bind_eq_ok.1 hrun
        exact (SeedRecords.humanNodePublic_ok (congrArg SeedRecords.liftFault hpublic)).1
      obtain ⟨adds, iValues, rows, hrows, hall, hnodup, -⟩ := @processValidators_eq env m₁ m₂ naNodePublic vsWhy
        hversion hvalid strValidatorsSrc entries db
      obtain rfl := Except.ok.inj (hrows.symm.trans hrun)
      intro r hr
      rw [Table.rows_insert hnodup, List.mem_append] at hr
      rcases hr with hr | hr
      · exact ih r (List.mem_of_mem_filter hr)
      · exact ⟨_, hall r hr⟩
    | false =>
      rw [processValidators, hvalid, if_neg Bool.false_ne_true] at hrun
      obtain ⟨strNodePublic, -, hrun⟩ := bind_eq_ok.1 hrun
      obtain ⟨st, hst, hrun⟩ := bind_eq_ok.1 hrun
      rw [← Except.ok.inj hrun, processEntries_values hvalid hst, if_pos rfl]
      exact fun r hr => ih r (List.mem_of_mem_filter hr)

/-- **No referral is found**: scoring looks for the blob of a validator. -/
theorem WrittenReferrals.unread {db : ValidatorReferrals} (h : WrittenReferrals env db) (strValidator : Bytes) :
    selectReferrals db strValidator = [] := by
  rw [selectReferrals_eq_nil]
  intro r hr
  obtain ⟨s, hs⟩ := h.texts r hr
  rw [hs]
  exact fun he => by cases he

/-- Without referrals nothing flows. -/
lemma flow_succ_of_nil {K : Type*} [DecidableEq K] {source : K → ℤ} {refersTo : K → List K} {nodes : Finset K}
    (h : ∀ j, refersTo j = []) (r : ℕ) (k : K) : flow source refersTo nodes (r + 1) k = 0 := by
  rw [flow]
  refine Finset.sum_eq_zero fun j _ => given_of_notMem _ ?_
  rw [h]
  exact List.not_mem_nil

variable {db : Wallet}

lemma refersTo_unread (h : WrittenReferrals env db.ValidatorReferrals) (k : Bytes) : refersTo env db k = [] := by
  rw [refersTo, h.unread]
  rfl

/-- Who is known is a seed. -/
lemma known_iff_seed (h : WrittenReferrals env db.ValidatorReferrals) (k : Bytes) :
    Known env db k ↔ k ∈ (sources db).map Prod.fst := by
  refine ⟨fun hk => ?_, .seed⟩
  cases hk with
  | seed hk => exact hk
  | referral hj hr hkey =>
    rw [h.unread] at hr
    exact absurd hr List.not_mem_nil

/-- **Points are those of the best source.** -/
lemma scoreIn_unread (h : WrittenReferrals env db.ValidatorReferrals) {fuel : ℕ} {t : Table TrustedNode.PublicKey}
    {mUNL : Finset Bytes} (hscore : scoreCompute env fuel db = some (.ok (t, mUNL))) (k : Bytes) :
    scoreIn t k = bestOf (sources db) k := by
  rw [scoreCompute_score hscore, Finset.sum_range_succ', Finset.sum_eq_zero, zero_add, flow]
  exact fun r _ => flow_succ_of_nil (refersTo_unread h) r k

lemma trustedLoad_unread (h : WrittenReferrals env db.ValidatorReferrals) {fuel : ℕ}
    {t : Table TrustedNode.PublicKey} {mUNL : Finset Bytes}
    (hscore : scoreCompute env fuel db = some (.ok (t, mUNL))) (k : Bytes) :
    k ∈ trustedLoad t ↔ bestOf (sources db) k ≠ 0 := by
  obtain ⟨hknown, vsnNodes, hmUNL, hloaded, hpoints⟩ := scoreCompute_spec hscore
  rw [hloaded]
  constructor
  · rintro ⟨sn, hsn, rfl, hne⟩
    obtain ⟨r, -, hflow⟩ := (hpoints sn hsn).1 hne
    cases r with
    | zero => exact hflow
    | succ r => exact absurd (flow_succ_of_nil (refersTo_unread h) r _) hflow
  · intro hbest
    have hk : k ∈ mUNL := by
      rw [hknown, known_iff_seed h]
      by_contra hnot
      exact hbest (bestOf_of_notMem hnot)
    rw [hmUNL, List.mem_toFinset] at hk
    obtain ⟨sn, hsn, rfl⟩ := List.mem_map.1 hk
    exact ⟨sn, hsn, rfl, (hpoints sn hsn).2 ⟨0, Nat.zero_le _, hbest⟩⟩

lemma isGreatest_insert_bestOf {items : List (Bytes × ℤ)} (h0 : ∀ e ∈ items, 0 ≤ e.2) (k : Bytes) :
    IsGreatest (insert 0 {n | (k, n) ∈ items}) (bestOf items k) := by
  by_cases hk : k ∈ items.map Prod.fst
  · obtain ⟨hmem, hle⟩ := isGreatest_bestOf h0 hk
    refine ⟨.inr hmem, ?_⟩
    rintro n (rfl | hn)
    · exact bestOf_nonneg items k
    · exact hle hn
  · rw [bestOf_of_notMem hk]
    refine ⟨.inl rfl, ?_⟩
    rintro n (rfl | hn)
    · exact le_rfl
    · exact absurd (List.mem_map_of_mem hn) hk

/-! ### The tables after a run -/

namespace SeedRecords

open Seeds (Functions)

/-- The columns that scoring reads. -/
def SeedRow.scored (r : SeedRow) : SeedNodeRow := ⟨r.PublicKey, r.Source⟩

/-- What scoring reads of the tables. -/
def State.wallet (s : State) (referrals : ValidatorReferrals) (trusted : Table TrustedNode.PublicKey) : Wallet where
  SeedDomains := ⟨s.SeedDomains.rows.map DomainRow.scored, by
    rw [List.map_map]
    exact s.SeedDomains.nodup⟩
  SeedNodes := ⟨s.SeedNodes.rows.map SeedRow.scored, by
    rw [List.map_map]
    exact s.SeedNodes.nodup⟩
  ValidatorReferrals := referrals
  TrustedNodes := trusted

/-- The keys in the tables are texts of addresses, those of domains only of valid public keys. -/
structure Columns (env : Crypto) (s : State) : Prop where
  domains : ∀ r ∈ s.SeedDomains.rows, r.PublicKey = .null ∨
    ∃ na : NewcoinAddress, na.nVersion = VER_NODE_PUBLIC ∧ r.PublicKey = .blob (na.ToString env)
  nodes : ∀ r ∈ s.SeedNodes.rows, ∃ na : NewcoinAddress, r.PublicKey = .text (na.ToString env)

/-- A record that is written has a node's key, or none. -/
lemma setSeedDomains_version {sd : SeedDomain} {db db' : SeedDomains} (h : setSeedDomains env sd db = .ok db')
    (hvalid : sd.naPublicKey.isValid env = true) : sd.naPublicKey.nVersion = VER_NODE_PUBLIC := by
  unfold setSeedDomains publicKeyLiteral at h
  rw [if_pos hvalid] at h
  obtain ⟨strPublicKey, hliteral, -⟩ := bind_eq_ok.1 h
  cases hpublic : liftFault (sd.naPublicKey.humanNodePublic env) with
  | error e =>
    rw [hpublic] at hliteral
    cases hliteral
  | ok strPublic => exact (humanNodePublic_ok hpublic).1

/-- **The key of a domain is written whole.** -/
lemma setSeedDomains_key (hpoints : TakesPoints env) {sd : SeedDomain} {db db' : SeedDomains}
    (h : setSeedDomains env sd db = .ok db') : ∃ row, db' = db.replace row ∧ (row.PublicKey = .null ∨
      sd.naPublicKey.nVersion = VER_NODE_PUBLIC ∧ row.PublicKey = .blob (sd.naPublicKey.ToString env)) := by
  have hversion := setSeedDomains_version h
  obtain ⟨PublicKey, hset, hcolumn⟩ := setSeedDomains_cut hversion db
  refine ⟨_, Except.ok.inj (h.symm.trans hset), ?_⟩
  have hkey : PublicKey = keyColumn env sd.naPublicKey := by
    refine hcolumn fun hvalid => ?_
    obtain ⟨c, cs, htext, -, hlen⟩ := ToString_node hpoints (hversion hvalid) hvalid
    rw [htext, List.length_cons]
    omega
  by_cases hvalid : sd.naPublicKey.isValid env = true
  · exact .inr ⟨hversion hvalid, hkey.trans (if_pos hvalid)⟩
  · exact .inl (hkey.trans (if_neg hvalid))

variable {env : Functions} {i : Moment}

/-- One record at most is written in each table. -/
structure Writes (env : Crypto) (s s' : State) : Prop where
  domains : s'.SeedDomains = s.SeedDomains ∨ ∃ sd, setSeedDomains env sd s.SeedDomains = .ok s'.SeedDomains
  nodes : s'.SeedNodes = s.SeedNodes ∨ ∃ sn, setSeedNodes env sn s.SeedNodes = .ok s'.SeedNodes

lemma writes_domain {sd : SeedDomain} {s s' : State} {f : SeedDomains → State}
    (h : setSeedDomains env.crypto sd s.SeedDomains >>= (fun db => pure (f db)) = .ok s')
    (hdomains : ∀ db, (f db).SeedDomains = db) (hnodes : ∀ db, (f db).SeedNodes = s.SeedNodes) :
    Writes env.crypto s s' := by
  obtain ⟨db, hset, h⟩ := bind_eq_ok.1 h
  obtain rfl := Except.ok.inj h
  exact ⟨.inr ⟨sd, by rw [hset, hdomains]⟩, .inl (hnodes db)⟩

lemma Writes.nothing (s : State) (requests : List Bytes) :
    Writes env.crypto s { s with requests := requests } := ⟨.inl rfl, .inl rfl⟩

lemma writes_fetchNext {s s' : State} (h : fetchNext env i s = .ok s') : Writes env.crypto s s' := by
  unfold fetchNext at h
  split at h
  · obtain rfl := Except.ok.inj h
    exact .nothing s s.requests
  · dsimp only at h
    split_ifs at h
    · obtain rfl := Except.ok.inj h
      exact .nothing s s.requests
    · obtain rfl := Except.ok.inj h
      exact .nothing s s.requests
    · cases hfound : getSeedDomains env.crypto _ s.SeedDomains with
      | none =>
        rw [hfound] at h
        cases h
      | some sd =>
        rw [hfound, Option.elim_some] at h
        exact writes_domain h (fun _ => rfl) fun _ => rfl

lemma writes_responseFetch {strDomain strSiteFile : Bytes} {err : ErrorCode} {s s' : State}
    (h : responseFetch env i strDomain err strSiteFile s = .ok s') : Writes env.crypto s s' := by
  unfold responseFetch at h
  split at h
  · obtain rfl := Except.ok.inj h
    exact .nothing s s.requests
  · cases hfound : getSeedDomains env.crypto strDomain s.SeedDomains with
    | none =>
      rw [hfound] at h
      cases h
    | some sd =>
      rw [hfound, Option.elim_some] at h
      exact writes_domain h (fun _ => rfl) fun _ => rfl

/-- **Every operation** writes one record at most. -/
lemma writes_run {op : Operation} {s s' : State} (h : op.run env i s = .ok s') : Writes env.crypto s s' := by
  cases op with
  | nodeAddDomain strDomain vsWhy strComment =>
    obtain ⟨current, -, h⟩ := bind_eq_ok.1 h
    cases current with
    | none =>
      obtain rfl := Except.ok.inj h
      exact .nothing s s.requests
    | some sn => exact writes_domain h (fun _ => rfl) fun _ => rfl
  | nodeAddPublic naNodePublic vsWhy strComment =>
    obtain ⟨found, -, h⟩ := bind_eq_ok.1 h
    obtain ⟨current, -, h⟩ := bind_eq_ok.1 h
    cases current with
    | none =>
      obtain rfl := Except.ok.inj h
      exact .nothing s s.requests
    | some sn =>
      obtain ⟨db, hset, h⟩ := bind_eq_ok.1 h
      obtain rfl := Except.ok.inj h
      exact ⟨.inl rfl, .inr ⟨_, hset⟩⟩
  | fetchNext => exact writes_fetchNext h
  | responseFetch n err strSiteFile =>
    simp only [Operation.run] at h
    split at h
    · obtain rfl := Except.ok.inj h
      exact .nothing s s.requests
    · have hwrites := writes_responseFetch h
      exact ⟨hwrites.domains, hwrites.nodes⟩

lemma Columns.run (hpoints : TakesPoints env.crypto) {op : Operation} {s s' : State} (hs : Columns env.crypto s)
    (h : op.run env i s = .ok s') : Columns env.crypto s' := by
  obtain ⟨hdomains, hnodes⟩ := writes_run h
  constructor
  · rcases hdomains with hsame | ⟨sd, hset⟩
    · rw [hsame]
      exact hs.domains
    · obtain ⟨row, hrow, hkey⟩ := setSeedDomains_key hpoints hset
      rw [hrow]
      intro r hr
      rcases Table.mem_replace.1 hr with rfl | ⟨hr, -⟩
      · exact hkey.imp id fun h => ⟨_, h⟩
      · exact hs.domains r hr
  · rcases hnodes with hsame | ⟨sn, hset⟩
    · rw [hsame]
      exact hs.nodes
    · rcases setSeedNodes_ok hset with ⟨-, hsame⟩ | ⟨row, hrow, hkey, -⟩
      · rw [hsame]
        exact hs.nodes
      · rw [hrow]
        intro r hr
        rcases Table.mem_replace.1 hr with rfl | ⟨hr, -⟩
        · exact ⟨_, hkey⟩
        · exact hs.nodes r hr

/-- **The columns after a run**, by induction on the operations from the first on. -/
lemma run_columns (hpoints : TakesPoints env.crypto) {calls : List (Moment × Operation)} {s : State}
    (h : run env calls = .ok s) : Columns env.crypto s := by
  induction calls using List.reverseRecOn generalizing s with
  | nil =>
    obtain rfl := Except.ok.inj h
    exact ⟨fun r hr => absurd hr List.not_mem_nil, fun r hr => absurd hr List.not_mem_nil⟩
  | append_singleton calls c ih =>
    rw [run_concat] at h
    obtain ⟨s₁, hrun, hstep⟩ := bind_eq_ok.1 h
    exact (ih hrun).run hpoints hstep

/-! ### What stands, and what it is worth -/

lemma points_toChar {Source : Value} {vs : ValidatorSource} (h : Source.bytes = [vs.toChar]) :
    points Source = Seeds.sourceScore vs := by
  rw [points, UniqueNodeList.sourceScore, h, List.headD_cons, ValidatorSource.ofChar_toChar, iSourceScore_some]
  rfl

lemma knownSource_toChar {Source : Value} {vs : ValidatorSource} (h : Source.bytes = [vs.toChar]) :
    KnownSource Source := by
  refine ⟨Seeds.sourceScore vs, ?_⟩
  rw [UniqueNodeList.sourceScore, h, List.headD_cons, ValidatorSource.ofChar_toChar, iSourceScore_some]

/-- What stands is one of the adds, and worth no less than the others. -/
lemma standing_spec {adds : List Add} {a : Add} (h : a ∈ adds) :
    ∃ b ∈ adds, standing adds = some b ∧ a.score ≤ b.score := by
  obtain ⟨pre, b, post, hstand, hadds, hpre, hpost⟩ := standing_eq_some (List.ne_nil_of_mem h)
  refine ⟨b, by simp [hadds], hstand, ?_⟩
  rw [hadds, List.mem_append, List.mem_cons] at h
  rcases h with h | rfl | h
  · exact hpre a h
  · exact le_rfl
  · exact (hpost a h).le

lemma mem_of_standing {adds : List Add} {a : Add} (h : standing adds = some a) : a ∈ adds := by
  have hne : adds ≠ [] := by
    rintro rfl
    cases h
  obtain ⟨pre, b, post, hstand, hadds, -⟩ := standing_eq_some hne
  obtain rfl := Option.some_inj.1 (hstand.symm.trans h)
  simp [hadds]

section

variable {s : State} {mDomains : Bytes → Option Add} {mNodes : NewcoinAddress → Option Add}

/-- A row holds what stands for its key. -/
lemma standing_of_row {R K ι : Type*} {key : R → K} [DecidableEq K] {cols : R → SeedRow} {enc : ι → K}
    {src : UInt8 → Value} {db : Table key} {m : ι → Option Add} (h : Represents cols enc src db m) {k : ι} {r : R}
    (hr : r ∈ db.rows) (hk : key r = enc k) : ∃ a, m k = some a ∧ (cols r).Source = src a.vsWhy.toChar := by
  have hstand := h k
  rw [Table.find_eq_some.2 ⟨hr, hk⟩, Option.map_some] at hstand
  obtain ⟨a, ha, hcols⟩ := Option.map_eq_some_iff.1 hstand.symm
  exact ⟨a, ha, (congrArg Prod.fst hcols).symm⟩

/-- What stands for a key is in its row. -/
lemma row_of_standing {R K ι : Type*} {key : R → K} [DecidableEq K] {cols : R → SeedRow} {enc : ι → K}
    {src : UInt8 → Value} {db : Table key} {m : ι → Option Add} (h : Represents cols enc src db m) {k : ι} {a : Add}
    (ha : m k = some a) : ∃ r ∈ db.rows, key r = enc k ∧ (cols r).Source = src a.vsWhy.toChar := by
  have hstand := h k
  rw [ha, Option.map_some] at hstand
  obtain ⟨r, hfind, hcols⟩ := Option.map_eq_some_iff.1 hstand
  obtain ⟨hr, hk⟩ := Table.find_eq_some.1 hfind
  exact ⟨r, hr, hk, congrArg Prod.fst hcols⟩

/-- The key that is read of a row of the domains is that of its text. -/
lemma readSeed_eq_iff (hcolumns : Columns env.crypto s) {row : DomainRow} (hrow : row ∈ s.SeedDomains.rows)
    {na : NewcoinAddress} (hversion : na.nVersion = VER_NODE_PUBLIC) :
    (readSeed env.crypto row.toSeedRow).naPublicKey = na ↔
      row.PublicKey ≠ .null ∧ row.PublicKey.bytes = na.ToString env.crypto := by
  constructor
  · rintro rfl
    rcases hcolumns.domains row hrow with hnull | ⟨na, hna, hkey⟩
    · have hclear : (readSeed env.crypto row.toSeedRow).naPublicKey = clear := if_pos hnull
      rw [hclear] at hversion
      exact absurd hversion (by decide)
    · have hread := readSeed_key hna (show row.toSeedRow.PublicKey ≠ .null by simp [hkey]) (congrArg Value.bytes hkey)
      rw [hread, hkey]
      exact ⟨by simp, rfl⟩
  · rintro ⟨hnull, htext⟩
    exact readSeed_key hversion hnull htext

/-- **The sources of a validator** are what stands for its key, and for the domains that it is the key of. -/
lemma mem_sources_wallet (hholds : Holds env.crypto s mDomains mNodes) (hcolumns : Columns env.crypto s)
    {referrals : ValidatorReferrals} {trusted : Table TrustedNode.PublicKey} {na : NewcoinAddress}
    (hversion : na.nVersion = VER_NODE_PUBLIC) {n : ℤ} :
    (na.ToString env.crypto, n) ∈ sources (s.wallet referrals trusted) ↔
      (∃ a, mNodes na = some a ∧ a.score = n) ∨ ∃ d sd a, getSeedDomains env.crypto d s.SeedDomains = some sd ∧
        sd.naPublicKey = na ∧ mDomains d = some a ∧ a.score = n := by
  rw [sources, List.mem_append, or_comm]
  apply or_congr
  · simp only [nodeSources, State.wallet, List.map_map, List.mem_map, Function.comp_apply, Prod.mk.injEq]
    constructor
    · rintro ⟨r, hr, htext, rfl⟩
      obtain ⟨na', hkey⟩ := hcolumns.nodes r hr
      have hna : na' = na := by
        apply ToString_inj
        rw [← htext, SeedRow.scored, hkey]
        rfl
      subst hna
      obtain ⟨a, ha, hsource⟩ := standing_of_row hholds.nodes hr hkey
      exact ⟨a, ha, (points_toChar (congrArg Value.bytes hsource)).symm⟩
    · rintro ⟨a, ha, rfl⟩
      obtain ⟨r, hr, hkey, hsource⟩ := row_of_standing hholds.nodes ha
      refine ⟨r, hr, congrArg Value.bytes hkey, points_toChar (congrArg Value.bytes hsource)⟩
  · simp only [domainSources, State.wallet, List.filterMap_map, List.mem_filterMap, Function.comp_apply]
    constructor
    · rintro ⟨r, hr, h⟩
      split at h
      · cases h
      next hnull =>
        obtain ⟨htext, rfl⟩ := Prod.mk.inj (Option.some_inj.1 h)
        obtain ⟨d, hd⟩ := hholds.keys r hr
        obtain ⟨a, ha, hsource⟩ := standing_of_row hholds.domains hr hd
        refine ⟨d, readDomain env.crypto r, a, ?_, ?_, ha, (points_toChar (congrArg Value.bytes hsource)).symm⟩
        · rw [getSeedDomains_eq (hholds.sized d a ha).1, Table.find_eq_some.2 ⟨hr, hd⟩, Option.map_some]
        · exact (readSeed_eq_iff hcolumns hr hversion).2 ⟨hnull, htext⟩
    · rintro ⟨d, sd, a, hfound, hkey, ha, rfl⟩
      rw [getSeedDomains_eq (hholds.sized d a ha).1] at hfound
      obtain ⟨r, hfind, rfl⟩ := Option.map_eq_some_iff.1 hfound
      obtain ⟨hr, hd⟩ := Table.find_eq_some.1 hfind
      obtain ⟨hnull, htext⟩ := (readSeed_eq_iff hcolumns hr hversion).1 hkey
      obtain ⟨a', ha', hsource⟩ := standing_of_row hholds.domains hr hd
      obtain rfl := Option.some_inj.1 (ha.symm.trans ha')
      refine ⟨r, hr, (if_neg hnull).trans ?_⟩
      exact congrArg some (Prod.ext htext (points_toChar (congrArg Value.bytes hsource)))

/-- **Scoring comes to its end.** -/
lemma exists_scoreCompute (hholds : Holds env.crypto s mDomains mNodes) (hcolumns : Columns env.crypto s)
    (referrals : ValidatorReferrals) (trusted : Table TrustedNode.PublicKey) :
    ∃ n, ∀ fuel ≥ n, ∃ t mUNL, scoreCompute env.crypto fuel (s.wallet referrals trusted) = some (.ok (t, mUNL)) := by
  obtain ⟨st, hseeds⟩ : ∃ st, seeds (s.wallet referrals trusted) = .ok st := by
    rw [exists_seeds_iff]
    constructor
    · intro row hrow _
      obtain ⟨r, hr, rfl⟩ := List.mem_map.1 hrow
      obtain ⟨d, hd⟩ := hholds.keys r hr
      obtain ⟨a, -, hsource⟩ := standing_of_row hholds.domains hr hd
      exact knownSource_toChar (congrArg Value.bytes hsource)
    · intro row hrow
      obtain ⟨r, hr, rfl⟩ := List.mem_map.1 hrow
      obtain ⟨na, hkey⟩ := hcolumns.nodes r hr
      obtain ⟨a, -, hsource⟩ := standing_of_row hholds.nodes hr hkey
      exact knownSource_toChar (congrArg Value.bytes hsource)
  refine ⟨knownCount env.crypto (s.wallet referrals trusted), fun fuel hfuel => ?_⟩
  obtain ⟨st', hwalk⟩ := @walk_ends env.crypto _ _ st fuel 0 (walkedTo_seeds hseeds) (Nat.zero_le _) (by omega)
  unfold scoreCompute
  simp only [hseeds, hwalk]
  exact ⟨_, _, rfl⟩

end

/-! ### The score of a validator -/

/-- An add of the validator: of its key, or of a domain whose file gave the key. -/
def AddedBy (env : Functions) (calls : List (Moment × Operation)) (s : State) (na : NewcoinAddress) (a : Add) : Prop :=
  a ∈ nodeAdds na calls ∨ ∃ d sd, getSeedDomains env.crypto d s.SeedDomains = some sd ∧ sd.naPublicKey = na ∧
    a ∈ domainAdds d calls

/-- Scoring gives a validator the points of the best of these adds, lists it if there are any, and will load it
again if some are worth points. -/
structure ScoredBest (env : Functions) (added : Add → Prop) (t : Table TrustedNode.PublicKey) (mUNL : Finset Bytes)
    (na : NewcoinAddress) : Prop where
  score : IsGreatest (insert 0 {n | ∃ a, added a ∧ a.score = n}) (scoreIn t (na.ToString env.crypto))
  listed : nodeInUNL env.crypto mUNL na = .ok true ↔ ∃ a, added a
  loaded : nodeInUNL env.crypto (trustedLoad t) na = .ok true ↔ ∃ a, added a ∧ 0 < a.score

lemma nodeInUNL_iff {env : Crypto} {mUNL : Finset Bytes} {na : NewcoinAddress}
    (hversion : na.nVersion = VER_NODE_PUBLIC) : nodeInUNL env mUNL na = .ok true ↔ na.ToString env ∈ mUNL := by
  rw [nodeInUNL, humanNodePublic_eq env hversion]
  simp only [bind, Except.bind, pure, Except.pure, Except.ok.injEq, decide_eq_true_eq]

/-- **What a scoring says of a validator** after a run. -/
lemma scoredBest (hpoints : TakesPoints env.crypto) {calls : List (Moment × Operation)}
    (hcalls : ∀ c ∈ calls, c.2.Sized env) {s : State} (hrun : run env calls = .ok s)
    {referrals : ValidatorReferrals} (hreferrals : WrittenReferrals env.crypto referrals)
    {trusted t : Table TrustedNode.PublicKey} {fuel : ℕ} {mUNL : Finset Bytes}
    (hscore : scoreCompute env.crypto fuel (s.wallet referrals trusted) = some (.ok (t, mUNL)))
    {na : NewcoinAddress} (hversion : na.nVersion = VER_NODE_PUBLIC) :
    ScoredBest env (AddedBy env calls s na) t mUNL na := by
  obtain ⟨s', hrun', hholds⟩ := holds_after hcalls
  obtain rfl := Except.ok.inj (hrun.symm.trans hrun')
  have hcolumns := run_columns hpoints hrun
  have hsources (n : ℤ) := @mem_sources_wallet env s _ _ hholds hcolumns referrals trusted na hversion n
  -- what stands was added, and what was added is worth no more than what stands
  have hstanding : ∀ n, (na.ToString env.crypto, n) ∈ sources (s.wallet referrals trusted) →
      ∃ a, AddedBy env calls s na a ∧ a.score = n := by
    intro n hn
    rcases (hsources n).1 hn with ⟨a, ha, hscore⟩ | ⟨d, sd, a, hfound, hkey, ha, hscore⟩
    · exact ⟨a, .inl (mem_of_standing ha), hscore⟩
    · exact ⟨a, .inr ⟨d, sd, hfound, hkey, mem_of_standing ha⟩, hscore⟩
  have hadded : ∀ a, AddedBy env calls s na a →
      ∃ n, (na.ToString env.crypto, n) ∈ sources (s.wallet referrals trusted) ∧ a.score ≤ n := by
    rintro a (ha | ⟨d, sd, hfound, hkey, ha⟩)
    · obtain ⟨b, -, hstand, hle⟩ := standing_spec ha
      exact ⟨b.score, (hsources _).2 (.inl ⟨b, hstand, rfl⟩), hle⟩
    · obtain ⟨b, -, hstand, hle⟩ := standing_spec ha
      exact ⟨b.score, (hsources _).2 (.inr ⟨d, sd, b, hfound, hkey, hstand, rfl⟩), hle⟩
  obtain ⟨hbest, hle⟩ := isGreatest_insert_bestOf (fun e he => sources_nonneg he) (na.ToString env.crypto)
  constructor
  · rw [scoreIn_unread hreferrals hscore]
    constructor
    · exact hbest.imp id (hstanding _)
    · rintro n (rfl | ⟨a, ha, rfl⟩)
      · exact bestOf_nonneg _ _
      · obtain ⟨n, hn, han⟩ := hadded a ha
        exact han.trans (hle (.inr hn))
  · rw [nodeInUNL_iff hversion, (scoreCompute_spec hscore).1, known_iff_seed hreferrals]
    constructor
    · intro hk
      obtain ⟨⟨k, n⟩, hn, rfl⟩ := List.mem_map.1 hk
      obtain ⟨a, ha, -⟩ := hstanding n hn
      exact ⟨a, ha⟩
    · rintro ⟨a, ha⟩
      obtain ⟨n, hn, -⟩ := hadded a ha
      exact List.mem_map_of_mem hn
  · rw [nodeInUNL_iff hversion, trustedLoad_unread hreferrals hscore]
    constructor
    · intro hne
      obtain ⟨a, ha, hscore⟩ := hstanding _ (hbest.resolve_left hne)
      refine ⟨a, ha, ?_⟩
      rw [hscore]
      exact lt_of_le_of_ne (bestOf_nonneg _ _) hne.symm
    · rintro ⟨a, ha, hpos⟩
      obtain ⟨n, hn, han⟩ := hadded a ha
      exact (hpos.trans_le (han.trans (hle (.inr hn)))).ne'

/-- **A validator has the points of the best source it was added from.**  In every run of adds and fetches, with
whatever lists validators have published, scoring comes to its end, and says this of every node. -/
theorem score_of_adds (hpoints : TakesPoints env.crypto) {calls : List (Moment × Operation)}
    (hcalls : ∀ c ∈ calls, c.2.Sized env) : ∃ s, run env calls = .ok s ∧
      ∀ referrals, WrittenReferrals env.crypto referrals → ∀ trusted : Table TrustedNode.PublicKey,
        ∃ n, ∀ fuel ≥ n, ∃ t mUNL,
          scoreCompute env.crypto fuel (s.wallet referrals trusted) = some (.ok (t, mUNL)) ∧
          ∀ na : NewcoinAddress, na.nVersion = VER_NODE_PUBLIC →
            ScoredBest env (AddedBy env calls s na) t mUNL na := by
  obtain ⟨s, hrun, hholds⟩ := holds_after hcalls
  refine ⟨s, hrun, fun referrals hreferrals trusted => ?_⟩
  obtain ⟨n, hends⟩ := exists_scoreCompute hholds (run_columns hpoints hrun) referrals trusted
  refine ⟨n, fun fuel hfuel => ?_⟩
  obtain ⟨t, mUNL, hscore⟩ := hends fuel hfuel
  exact ⟨t, mUNL, hscore, fun na hversion => scoredBest hpoints hcalls hrun hreferrals hscore hversion⟩

/-- A node that is added twice, and a domain. -/
def twiceAdded : List (Moment × Operation) := [
  (⟨43200, 0, false⟩, .nodeAddPublic referrer .vsValidator (cString "listed")),
  (⟨43200, 0, false⟩, .nodeAddDomain (cString "x.com") .vsWeb (cString "web")),
  (⟨43260, 0, false⟩, .nodeAddPublic referrer .vsReferral (cString "told")),
  (⟨43260, 0, false⟩, .fetchNext),
  (⟨43320, 0, false⟩, .responseFetch 0 .success Seeds.siteFile)]

theorem score_of_adds_twiceAdded : ∃ s, run Seeds.keys twiceAdded = .ok s ∧
    ∀ referrals, WrittenReferrals Seeds.keys.crypto referrals → ∀ trusted : Table TrustedNode.PublicKey,
      ∃ n, ∀ fuel ≥ n, ∃ t mUNL,
        scoreCompute Seeds.keys.crypto fuel (s.wallet referrals trusted) = some (.ok (t, mUNL)) ∧
        ∀ na : NewcoinAddress, na.nVersion = VER_NODE_PUBLIC →
          ScoredBest Seeds.keys (AddedBy Seeds.keys twiceAdded s na) t mUNL na :=
  score_of_adds takesPoints_twoKeys (by decide)

end SeedRecords

end Newcoin.UniqueNodeList
