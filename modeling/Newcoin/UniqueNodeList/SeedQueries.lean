import Newcoin.UniqueNodeList.DomainReferrals

/-!
# Statements that find no seed

A row is found if the statement writes its value the way it is stored.  `nodeRemovePublic` leaves out the quotes,
so the key is read as the name of a column; `nodeBootstrap` prints the number of a source, and rows hold its
letter.

* `removed_iff`: which keys `nodeRemovePublic` removes.
* `counts_right_iff`: when `nodeBootstrap` counts right.
-/

namespace Newcoin.UniqueNodeList.SeedRecords

open Lib.Sql NewcoinAddress
open Seeds (Functions)

/-! ### `nodeRemovePublic` -/

/-- What an unquoted word is that has a meaning in a statement about `SeedNodes`: its columns, the number of the
row, and the words that are values. -/
def names : List Bytes :=
  ["publickey", "source", "next", "scan", "fetch", "sha256", "comment", "rowid", "oid", "_rowid_", "true",
    "false"].map cString

/-- Begins with a letter, and names nothing: there is no such column. -/
def namesNothing (s : Bytes) : Bool :=
  s.head?.any (fun c => 97 ≤ toLower c && toLower c ≤ 122) && !names.contains (s.map toLower)

section

/- What a statement does that has a number or a name for the key. -/
variable (others : Bytes → SeedNodes → SeedNodes) (env : Crypto)

/-- `DELETE FROM SeedNodes WHERE PublicKey=%s`; a statement that fails does nothing. -/
def nodeRemovePublic (naNodePublic : NewcoinAddress) (db : SeedNodes) : Except Stop SeedNodes := do
  let strPublic ← liftFault (naNodePublic.humanNodePublic env)
  return if namesNothing strPublic then db else others strPublic db

end

variable {env : Crypto}

/-- No column has the text of a key for its name. -/
lemma namesNothing_ToString (hpoints : TakesPoints env) {na : NewcoinAddress}
    (hversion : na.nVersion = VER_NODE_PUBLIC) (hvalid : na.isValid env = true) :
    namesNothing (na.ToString env) = true := by
  obtain ⟨c, cs, htext, hc, hlen⟩ := ToString_node hpoints hversion hvalid
  have hletter : ∀ c ∈ cString "NEnp", (97 ≤ toLower c && toLower c ≤ 122) = true := by decide +kernel
  have hnames : ∀ s ∈ names, s.length ≠ 8 ∧ s.length < 52 := by decide +kernel
  rw [htext, namesNothing, List.head?_cons, Option.any_some, hletter c hc, Bool.true_and, Bool.not_eq_true',
    List.contains_eq_mem, decide_eq_false_iff_not]
  intro hmem
  have hsize := hnames _ hmem
  rw [List.length_map, List.length_cons] at hsize
  omega

/-- **The statement fails**, whatever is stored. -/
lemma nodeRemovePublic_eq {others : Bytes → SeedNodes → SeedNodes} (hpoints : TakesPoints env) {na : NewcoinAddress}
    (hversion : na.nVersion = VER_NODE_PUBLIC) (hvalid : na.isValid env = true) (db : SeedNodes) :
    nodeRemovePublic others env na db = .ok db := by
  rw [nodeRemovePublic, humanNodePublic_eq env hversion]
  simp only [liftFault, Except.mapError, bind, Except.bind, pure, Except.pure,
    namesNothing_ToString hpoints hversion hvalid, if_true]

/-- The key is gone, and nothing else. -/
structure Removed (env : Crypto) (na : NewcoinAddress) (db db' : SeedNodes) : Prop where
  gone : ∀ r ∈ db'.rows, r.PublicKey ≠ .text (na.ToString env)
  others : ∀ r, r.PublicKey ≠ .text (na.ToString env) → (r ∈ db'.rows ↔ r ∈ db.rows)
  notFound : getSeedNodes env na db' = .ok none

lemma removed_self_iff {na : NewcoinAddress} (hversion : na.nVersion = VER_NODE_PUBLIC) {db : SeedNodes} :
    Removed env na db db ↔ ∀ r ∈ db.rows, r.PublicKey ≠ .text (na.ToString env) := by
  refine ⟨fun h => h.gone, fun h => ⟨h, fun _ _ => Iff.rfl, ?_⟩⟩
  rw [getSeedNodes_eq hversion, Table.find_eq_none.2 h, Option.map_none]

/-! #### The keys that are added -/

lemma humanNodePublic_ok {na : NewcoinAddress} {strPublic : Bytes}
    (h : liftFault (na.humanNodePublic env) = .ok strPublic) :
    na.nVersion = VER_NODE_PUBLIC ∧ strPublic = na.ToString env := by
  unfold humanNodePublic checkSource at h
  split_ifs at h with hnone hversion
  · cases h
  · exact ⟨hversion, (Except.ok.inj h).symm⟩
  · cases h

/-- A comment that can be written at all is a blob. -/
lemma sqlEscapeInt_ok {s strEsc : Bytes}
    (h : (sqlEscapeInt s).elim (throw .lengthError) pure = (.ok strEsc : Except Stop Bytes)) :
    ∃ bs, literal strEsc = some (.blob bs) := by
  unfold sqlEscapeInt strHexInt at h
  split_ifs at h
  · cases h
  · cases h
    exact ⟨_, literal_sqlEscape _⟩

/-- **A record that is written** has the text of its key for its key; a source that is a quote makes the statement
fail. -/
lemma setSeedNodes_ok {sn : SeedNode} {db db' : SeedNodes} (h : setSeedNodes env sn db = .ok db') :
    (sn.vsSource = 39 ∧ db' = db) ∨ ∃ row, db' = db.replace row ∧
      row.PublicKey = .text (sn.naPublicKey.ToString env) ∧ row.Source = .text [sn.vsSource] := by
  unfold setSeedNodes at h
  split_ifs at h with hvalid
  obtain ⟨strPublic, hpublic, h⟩ := bind_eq_ok.1 h
  obtain ⟨strComment, hcomment, h⟩ := bind_eq_ok.1 h
  obtain ⟨-, rfl⟩ := humanNodePublic_ok hpublic
  obtain ⟨bs, hbs⟩ := sqlEscapeInt_ok hcomment
  have hkey := sqlValue_eq (literal_quoted (quote_notMem_ToString env sn.naPublicKey))
  have hsha := sqlValue_eq (literal_quoted (quote_notMem_strHex sn.iSha256.bytes))
  rw [seedRow, hkey, BaseUInt.GetHex, hsha, sqlValue_eq hbs] at h
  by_cases hquote : sn.vsSource = 39
  · have hnone : sqlValue (quoted [39]) = none := by decide
    rw [hquote, hnone] at h
    exact .inl ⟨hquote, (Except.ok.inj h).symm⟩
  · have hquote' : 39 ∉ [sn.vsSource] := by simpa using Ne.symm hquote
    rw [sqlValue_eq (literal_quoted hquote')] at h
    exact .inr ⟨_, (Except.ok.inj h).symm, rfl, rfl⟩

lemma toChar_ne_quote (vs : ValidatorSource) : vs.toChar ≠ 39 := by
  cases vs <;> decide

lemma promote_key {i : Moment} {bFound : Bool} {vsWhy : ValidatorSource} {strComment : Bytes} {current sn : SeedNode}
    (h : promote i bFound vsWhy strComment current = .ok (some sn)) : sn.naPublicKey = current.naPublicKey := by
  unfold promote at h
  obtain ⟨bPromote, -, h⟩ := bind_eq_ok.1 h
  have hsome := Except.ok.inj h
  by_cases hboth : bPromote = true ∨ vsWhy = .vsManual
  · rw [if_pos hboth, Option.some_inj] at hsome
    subst hsome
    split_ifs <;> rfl
  · rw [if_neg hboth] at hsome
    cases hsome

/-- **Whom an add of a public key stores.** -/
lemma nodeAddPublic_keys {env : Functions} {i : Moment} {na : NewcoinAddress} {a : Add} {s s' : State}
    (h : nodeAddPublic env i na a.vsWhy a.strComment s = .ok s') (k : Value) :
    (∃ r ∈ s'.SeedNodes.rows, r.PublicKey = k) ↔
      .text (na.ToString env.crypto) = k ∨ ∃ r ∈ s.SeedNodes.rows, r.PublicKey = k := by
  unfold nodeAddPublic at h
  obtain ⟨found, hfound, h⟩ := bind_eq_ok.1 h
  obtain ⟨current, hpromote, h⟩ := bind_eq_ok.1 h
  have hversion : na.nVersion = VER_NODE_PUBLIC := by
    obtain ⟨strPublic, hpublic, -⟩ := bind_eq_ok.1 hfound
    exact (humanNodePublic_ok hpublic).1
  rw [getSeedNodes_eq hversion] at hfound
  obtain rfl := Except.ok.inj hfound
  cases hrow : s.SeedNodes.find (.text (na.ToString env.crypto)) with
  | none =>
    rw [hrow] at hpromote h
    have hspec := @promote_spec i none (newSeed i na) (fun b hb => absurd hb.symm (Option.some_ne_none b)) a
    obtain ⟨hraise, -⟩ | ⟨sn, -, hsn, hsource, -, hkey⟩ := hspec
    · exact absurd hraise (Option.some_ne_none a)
    · obtain rfl := Except.ok.inj (hpromote.symm.trans hsn)
      obtain ⟨db, hset, h⟩ := bind_eq_ok.1 h
      obtain rfl := Except.ok.inj h
      rcases setSeedNodes_ok hset with ⟨hquote, -⟩ | ⟨row, rfl, hrowkey, -⟩
      · exact absurd (hsource.symm.trans hquote) (toChar_ne_quote a.vsWhy)
      · rw [Table.exists_key_replace, hrowkey, hkey]
        rfl
  | some row =>
    rw [hrow] at hpromote h
    obtain ⟨hmem, hpublic⟩ := Table.find_eq_some.1 hrow
    have hstored : Value.text (na.ToString env.crypto) = k → ∃ r ∈ s.SeedNodes.rows, r.PublicKey = k := by
      rintro rfl
      exact ⟨row, hmem, hpublic⟩
    cases current with
    | none =>
      obtain rfl := Except.ok.inj h
      exact ⟨.inr, fun hk => hk.elim hstored id⟩
    | some sn =>
      obtain ⟨db, hset, h⟩ := bind_eq_ok.1 h
      obtain rfl := Except.ok.inj h
      have hkey : sn.naPublicKey = na := (promote_key hpromote).trans
        (readSeed_key hversion (by simp [hpublic]) (by rw [hpublic]; rfl))
      rcases setSeedNodes_ok hset with ⟨-, rfl⟩ | ⟨row', rfl, hrowkey, -⟩
      · exact ⟨.inr, fun hk => hk.elim hstored id⟩
      · rw [Table.exists_key_replace, hrowkey, hkey]

/-- A call of `nodeAddPublic`, when it is made. -/
structure PublicAdd where
  moment : Moment
  naNodePublic : NewcoinAddress
  add : Add

/-- The calls, one after the other. -/
def addAll (env : Functions) (calls : List PublicAdd) (s : State) : Except Stop State :=
  calls.foldlM (fun s c => nodeAddPublic env c.moment c.naNodePublic c.add.vsWhy c.add.strComment s) s

/-- **The keys after the calls.** -/
lemma addAll_keys {env : Functions} {calls : List PublicAdd} {s s' : State} (h : addAll env calls s = .ok s')
    (k : Value) : (∃ r ∈ s'.SeedNodes.rows, r.PublicKey = k) ↔
      (∃ c ∈ calls, .text (c.naNodePublic.ToString env.crypto) = k) ∨ ∃ r ∈ s.SeedNodes.rows, r.PublicKey = k := by
  induction calls generalizing s with
  | nil =>
    obtain rfl := Except.ok.inj h
    simp
  | cons c calls ih =>
    rw [addAll, List.foldlM_cons] at h
    obtain ⟨s₁, hcall, h⟩ := bind_eq_ok.1 h
    rw [ih h, nodeAddPublic_keys hcall]
    simp only [List.mem_cons, exists_eq_or_imp]
    rw [or_left_comm, or_assoc]

lemma ToString_inj {na na' : NewcoinAddress} (h : na.ToString env = na'.ToString env) : na = na' := by
  obtain ⟨hversion, hdata⟩ := List.cons.inj (EncodeBase58Check_inj h)
  cases na
  cases na'
  exact congrArg₂ NewcoinAddress.mk hversion hdata

/-- **Which keys are removed**: those that were never stored. -/
theorem removed_iff (env : Functions) (others : Bytes → SeedNodes → SeedNodes)
    (hpoints : TakesPoints env.crypto) {calls : List PublicAdd} {s₀ s : State} (hcalls : addAll env calls s₀ = .ok s)
    {na : NewcoinAddress} (hversion : na.nVersion = VER_NODE_PUBLIC) (hvalid : na.isValid env.crypto = true) :
    ∃ db', nodeRemovePublic others env.crypto na s.SeedNodes = .ok db' ∧
      (Removed env.crypto na s.SeedNodes db' ↔
        (∀ c ∈ calls, c.naNodePublic ≠ na) ∧
          ∀ r ∈ s₀.SeedNodes.rows, r.PublicKey ≠ .text (na.ToString env.crypto)) := by
  refine ⟨_, nodeRemovePublic_eq hpoints hversion hvalid s.SeedNodes, ?_⟩
  rw [removed_self_iff hversion]
  have hkeys := addAll_keys hcalls (.text (na.ToString env.crypto))
  have hcall : ∀ c : PublicAdd, Value.text (c.naNodePublic.ToString env.crypto) = .text (na.ToString env.crypto) ↔
      c.naNodePublic = na := fun c => ⟨fun he => ToString_inj (Value.text.inj he), fun he => he ▸ rfl⟩
  have hnone := not_congr hkeys
  simpa only [hcall, not_or, not_exists, not_and] using hnone

/-- A key is added. -/
def oneAdd : PublicAdd := ⟨⟨43200, 0, false⟩, referrer, ⟨.vsManual, cString "node"⟩⟩

lemma addAll_oneAdd : ∃ s, addAll Seeds.keys [oneAdd] init = .ok s := by
  obtain ⟨s, hs, -⟩ := @Holds.nodeAddPublic Seeds.keys oneAdd.moment init _ _ holds_init referrer oneAdd.add rfl
    (by decide) (by decide)
  refine ⟨s, ?_⟩
  rw [addAll, List.foldlM_cons]
  exact congrArg (· >>= pure) hs

theorem removed_iff_oneAdd : ∃ s db', addAll Seeds.keys [oneAdd] init = .ok s ∧
    nodeRemovePublic (fun _ db => db) Seeds.keys.crypto referrer s.SeedNodes = .ok db' ∧
    (Removed Seeds.keys.crypto referrer s.SeedNodes db' ↔ (∀ c ∈ [oneAdd], c.naNodePublic ≠ referrer) ∧
      ∀ r ∈ init.SeedNodes.rows, r.PublicKey ≠ .text (referrer.ToString Seeds.keys.crypto)) := by
  obtain ⟨s, hs⟩ := addAll_oneAdd
  obtain ⟨db', hremove, hiff⟩ :=
    @removed_iff Seeds.keys (fun _ db => db) takesPoints_twoKeys _ _ _ hs referrer rfl (by decide)
  exact ⟨s, db', hs, hremove, hiff⟩

/-- A key that was added, and then removed, is still there. -/
theorem removed_key_stays : ∃ s db', addAll Seeds.keys [oneAdd] init = .ok s ∧
    nodeRemovePublic (fun _ db => db) Seeds.keys.crypto referrer s.SeedNodes = .ok db' ∧
    ¬ Removed Seeds.keys.crypto referrer s.SeedNodes db' ∧
    getSeedNodes Seeds.keys.crypto referrer db' ≠ .ok none := by
  obtain ⟨s, hs⟩ := addAll_oneAdd
  obtain ⟨r, hr, hkey⟩ := (addAll_keys hs (.text (referrer.ToString Seeds.keys.crypto))).2
    (.inl ⟨oneAdd, List.mem_singleton_self _, rfl⟩)
  refine ⟨s, s.SeedNodes, hs, nodeRemovePublic_eq takesPoints_twoKeys rfl (by decide) s.SeedNodes,
    fun h => h.gone r hr hkey, ?_⟩
  rw [getSeedNodes_eq rfl, Table.find_eq_some.2 ⟨hr, hkey⟩]
  simp

/-! ### `nodeBootstrap` -/

/-- `SELECT COUNT(*) … WHERE Source='%s' OR Source='%c'`, for `vsManual` and `vsValidator`. -/
def countSeeds {R : Type} {key : R → Value} (Source : R → Value) (db : Table key) : ℕ :=
  (db.select fun r => literal (quoted ValidatorSource.vsManual.formatS) = some (Source r) ∨
    literal (quoted ValidatorSource.vsValidator.formatC) = some (Source r)).length

/-- `iDomains` and `iNodes`. -/
def bootstrapCounts (domains : SeedDomains) (nodes : SeedNodes) : ℕ × ℕ :=
  (countSeeds (fun r => r.Source) domains, countSeeds SeedRow.Source nodes)

/-- `iDomains || iNodes`: something has been loaded before. -/
def bLoaded (domains : SeedDomains) (nodes : SeedNodes) : Bool :=
  (bootstrapCounts domains nodes).1 ≠ 0 ∨ (bootstrapCounts domains nodes).2 ≠ 0

/-- The tables that calls can leave, of records whose source is one. -/
inductive WrittenNodes (env : Crypto) : SeedNodes → Prop
  | empty : WrittenNodes env Table.empty
  | set {db db' : SeedNodes} {sn : SeedNode} {vs : ValidatorSource} (h : WrittenNodes env db)
    (hsource : sn.vsSource = vs.toChar) (hset : setSeedNodes env sn db = .ok db') : WrittenNodes env db'
  | delete {db : SeedNodes} (h : WrittenNodes env db) (p : SeedRow → Bool) : WrittenNodes env (db.delete p)

/-- The sources of nodes are texts of one letter. -/
lemma WrittenNodes.text {db : SeedNodes} (h : WrittenNodes env db) :
    ∀ r ∈ db.rows, ∃ vs : ValidatorSource, r.Source = .text [vs.toChar] := by
  induction h with
  | empty => exact fun r hr => absurd hr List.not_mem_nil
  | @set db db' sn vs h hsource hset ih =>
    intro r hr
    rcases setSeedNodes_ok hset with ⟨-, rfl⟩ | ⟨row, rfl, -, hrow⟩
    · exact ih r hr
    · rcases Table.mem_replace.1 hr with rfl | ⟨hr, -⟩
      · exact ⟨vs, hsource ▸ hrow⟩
      · exact ih r hr
  | delete h p ih => exact fun r hr => ih r (List.mem_of_mem_filter hr)

/-- **No row is counted**: the number of a source is no letter, and a text is no blob. -/
lemma bootstrapCounts_eq {domains : SeedDomains} {nodes : SeedNodes} (hdomains : Written env domains)
    (hnodes : WrittenNodes env nodes) : bootstrapCounts domains nodes = (0, 0) := by
  have hmanual : literal (quoted ValidatorSource.vsManual.formatS) = some (.text (cString "77")) := by decide +kernel
  have hvalidator : literal (quoted ValidatorSource.vsValidator.formatC) = some (.text (cString "8")) := by
    decide +kernel
  unfold bootstrapCounts countSeeds Table.select
  rw [hmanual, hvalidator, List.filter_eq_nil_iff.2, List.filter_eq_nil_iff.2]
  · rfl
  · intro r hr
    obtain ⟨vs, hsource⟩ := hnodes.text r hr
    rw [hsource]
    cases vs <;> decide
  · intro r hr
    obtain ⟨-, c, hsource⟩ := hdomains.blobs r hr
    simp [hsource]

/-- The record that is read of a row is from a list. -/
def FromList (env : Crypto) (row : SeedRow) : Prop :=
  (readSeed env row).vsSource = ValidatorSource.vsManual.toChar ∨
    (readSeed env row).vsSource = ValidatorSource.vsValidator.toChar

instance (row : SeedRow) : Decidable (FromList env row) := inferInstanceAs (Decidable (_ ∨ _))

/-- The list is loaded, whether it has been loaded or not. -/
lemma bLoaded_eq_false {domains : SeedDomains} {nodes : SeedNodes} (hdomains : Written env domains)
    (hnodes : WrittenNodes env nodes) : bLoaded domains nodes = false := by
  rw [bLoaded, bootstrapCounts_eq hdomains hnodes]
  rfl

/-- **When the counts are right**: if there is nothing to count. -/
theorem counts_right_iff {domains : SeedDomains} {nodes : SeedNodes} (hdomains : Written env domains)
    (hnodes : WrittenNodes env nodes) :
    bootstrapCounts domains nodes =
        (domains.rows.countP fun r => FromList env r.toSeedRow, nodes.rows.countP fun r => FromList env r) ↔
      (∀ r ∈ domains.rows, ¬ FromList env r.toSeedRow) ∧ ∀ r ∈ nodes.rows, ¬ FromList env r := by
  rw [bootstrapCounts_eq hdomains hnodes, Prod.mk.injEq, eq_comm, List.countP_eq_zero, @eq_comm ℕ 0,
    List.countP_eq_zero]
  simp only [decide_eq_true_eq]

/-- A domain of the list in the current directory. -/
def listed : SeedDomain :=
  ⟨⟨clear, ValidatorSource.vsValidator.toChar, some 43200, none, none, BaseUInt.zero 256, []⟩, cString "x.com"⟩

lemma setSeedDomains_listed : ∃ db row, setSeedDomains twoKeys listed Table.empty = .ok db ∧ db.rows = [row] ∧
    row.Source = .blob [86] := by
  obtain ⟨PublicKey, hset, -⟩ := @setSeedDomains_eq twoKeys listed (by decide) (by decide) (by decide) Table.empty
  exact ⟨_, _, hset, rfl, rfl⟩

theorem counts_right_iff_listed : ∃ db, setSeedDomains twoKeys listed Table.empty = .ok db ∧
    (bootstrapCounts db Table.empty = (db.rows.countP fun r => FromList twoKeys r.toSeedRow, 0) ↔
      (∀ r ∈ db.rows, ¬ FromList twoKeys r.toSeedRow) ∧
        ∀ r ∈ (Table.empty : SeedNodes).rows, ¬ FromList twoKeys r) := by
  obtain ⟨db, -, hset, -⟩ := setSeedDomains_listed
  exact ⟨db, hset, counts_right_iff (.set .empty hset) .empty⟩

/-- One domain of the list is stored, none is counted, and the list is loaded again. -/
theorem listed_not_counted : ∃ db, setSeedDomains twoKeys listed Table.empty = .ok db ∧
    (db.rows.countP fun r => FromList twoKeys r.toSeedRow) = 1 ∧ bootstrapCounts db Table.empty = (0, 0) ∧
    bLoaded db Table.empty = false := by
  obtain ⟨db, row, hset, hrows, hsource⟩ := setSeedDomains_listed
  have hfrom : FromList twoKeys row.toSeedRow := by
    right
    unfold readSeed
    dsimp only
    rw [hsource]
    rfl
  refine ⟨db, hset, ?_, bootstrapCounts_eq (.set .empty hset) .empty, bLoaded_eq_false (.set .empty hset) .empty⟩
  rw [hrows, List.countP_singleton, decide_eq_true hfrom, if_pos rfl]

end Newcoin.UniqueNodeList.SeedRecords
