import Newcoin.ParseSection
import Newcoin.UniqueNodeList.IpScores
import Newcoin.UniqueNodeList.SeedScores

/-!
# The first start

`nodeBootstrap` reads the configured list of validators, or the one in the current directory, and then the list
in the configuration itself.  The adds it makes are run one after the other, each with the fetches it leads to.

* `processEntries_adds`: what the loop over a list adds.
* `nodeBootstrap_eq`: what the two lists add, and when the list is asked for on the network.
* `bootstrap_trust`: whom a node that starts with empty tables trusts, and how much.
-/

namespace Newcoin.UniqueNodeList

open Lib.Sql NewcoinAddress

/-! ### The model -/

/-- What is read of the configuration; a path that is not set is empty. -/
structure Config where
  UNL_DEFAULT : Bytes
  VALIDATORS_SITE : Bytes
  VALIDATORS : List Bytes
  IPS : List Bytes

def VALIDATORS_FILE_NAME : Bytes := cString "validators.txt"

def CONFIG_FILE_NAME : Bytes := cString "newcoind.cfg"

def SECTION_VALIDATORS : Bytes := cString "validators"

/-- What `nodeBootstrap` has done. -/
structure Bootstrap where
  ValidatorReferrals : ValidatorReferrals
  /-- The calls that add validators. -/
  adds : List NodeAdd
  bLoaded : Bool

section

variable (env : Crypto) (m₁ m₂ : Rfc1751.Stale)

/-- `nodeProcess`; `naInvalid` is no referrer. -/
def nodeProcess (strValidators strSource : Bytes) (b : Bootstrap) : Except Fault Bootstrap :=
  match sectionEntries (ParseSection strValidators true) SECTION_VALIDATORS with
  | none => .ok b
  | some entries => do
    let (db, adds, _) ← processValidators env m₁ m₂ clear .vsValidator strSource (some entries) b.ValidatorReferrals
    return { b with ValidatorReferrals := db, adds := b.adds ++ adds }

/- The texts of the files that are there, regular, and can be read. -/
variable (files : Bytes → Option Bytes)

/-- `bLoaded = nodeLoad(pConfig)`. -/
def nodeLoad (pConfig : Bytes) (b : Bootstrap) : Except Fault Bootstrap :=
  if pConfig = [] then .ok { b with bLoaded := false }
  else
    match files pConfig with
    | none => .ok { b with bLoaded := false }
    | some strValidators => do
      let b ← nodeProcess env m₁ m₂ strValidators pConfig b
      return { b with bLoaded := true }

/-- `nodeBootstrap`, as far as it loads files. -/
def loadFiles (config : Config) (b : Bootstrap) : Except Fault Bootstrap := do
  -- Always merge in the file specified in the config.
  let b ← if config.UNL_DEFAULT ≠ [] then nodeLoad env m₁ m₂ files config.UNL_DEFAULT b else pure b
  -- If never loaded anything try the current directory.
  if !b.bLoaded && config.UNL_DEFAULT = [] then nodeLoad env m₁ m₂ files VALIDATORS_FILE_NAME b else pure b

/-- `nodeBootstrap` up to the network, for what has been counted in the tables. -/
def nodeBootstrap (config : Config) (bLoaded : Bool) (db : ValidatorReferrals) : Except Fault Bootstrap := do
  let b ← loadFiles env m₁ m₂ files config ⟨db, [], bLoaded⟩
  -- Always load from newcoind.cfg
  if config.VALIDATORS = [] then return b
  else do
    let (db, adds, iValues) ← processValidators env m₁ m₂ clear .vsConfig CONFIG_FILE_NAME (some config.VALIDATORS)
      b.ValidatorReferrals
    return ⟨db, b.adds ++ adds, b.bLoaded || iValues ≠ 0⟩

end

/-- `nodeNetwork`, if nothing has been loaded: the site that is asked. -/
def nodeNetwork (config : Config) (b : Bootstrap) : Option Bytes :=
  if b.bLoaded then none else some config.VALIDATORS_SITE

section

variable {Address : Type} (asio : Addresses Address)

/-- The row of a statement that names the key and the source; the other columns get their defaults. -/
def configRow (IpPort : Value) : PeerIpRow where
  IpPort := IpPort
  Score := 0
  Source := .text [ValidatorSource.vsConfig.toChar]
  ScanNext := some 0
  ScanInterval := 0

/-- The rows for the addresses of the configuration; those with no address are left out. -/
def configIps : List Bytes → Except Fault (List (Option PeerIpRow))
  | [] => .ok []
  | strPeer :: rest => do
    let (bValid, strIP, iPort) ← parseIpPort asio strPeer [] 0
    let rows ← configIps rest
    return if bValid then
      (literal (sqlEscape (ConnectionPool.ipPortText (strIP, iPort)))).map configRow :: rows else rows

/-- `nodeBootstrap` from there on: `REPLACE INTO PeerIps (IpPort,Source) VALUES …`. -/
def bootstrapIps (config : Config) (peers : PeerIps) : Except Fault PeerIps := do
  let vstrValues ← configIps asio config.IPS
  return (vstrValues.mapM id).elim peers fun rows => peers.replaceAll rows

end

/-! ### What a list adds -/

section

variable (env : Crypto) (m₁ m₂ : Rfc1751.Stale)

/-- The call for an entry. -/
def nodeAdd (vsWhy : ValidatorSource) (strReferral : Bytes) : Option NodeAdd :=
  (reReferral strReferral).map fun m =>
    if (setNodePublic env m.1).1 then .nodeAddPublic (setNodePublic env m.1).2 vsWhy m.2
    else .nodeAddDomain m.1 vsWhy m.2

/-- The entries that are taken: those that are accepted, up to the limit. -/
def taken (entries : List Bytes) : List Bytes := (entries.filter (accepts env m₁ m₂)).take REFERRAL_VALIDATORS_MAX

variable {env m₁ m₂} {strNodePublic : Bytes} {naNodePublic : NewcoinAddress} {vsWhy : ValidatorSource}

/-- **The loop adds what is accepted**, until the limit is reached. -/
lemma processEntries_adds (entries : List Bytes) (st : Collected) (n : ℕ)
    (hn : st.iValues + n = REFERRAL_VALIDATORS_MAX) :
    ∃ st', processEntries env m₁ m₂ strNodePublic naNodePublic vsWhy st entries = .ok st' ∧
      st'.adds = st.adds ++ ((entries.filter (accepts env m₁ m₂)).take n).filterMap (nodeAdd env vsWhy) ∧
      st'.iValues = st.iValues + ((entries.filter (accepts env m₁ m₂)).take n).length := by
  induction entries generalizing st n with
  | nil => exact ⟨st, rfl, by simp, by simp⟩
  | cons strReferral entries ih =>
    rw [processEntries]
    cases n with
    | zero =>
      rw [if_pos (by omega)]
      exact ⟨st, rfl, by simp, by simp⟩
    | succ n =>
      rw [if_neg (by omega)]
      cases hacc : accepts env m₁ m₂ strReferral with
      | false =>
        obtain ⟨st', hrun, hadds, hcount⟩ := ih st (n + 1) hn
        rw [processEntry_refused hacc, List.filter_cons_of_neg (by simp [hacc])]
        exact ⟨st', hrun, hadds, hcount⟩
      | true =>
        obtain ⟨strRefered, strComment, hm, hseed⟩ := accepts_eq_true hacc
        obtain ⟨st₁, hentry, hone, hadd⟩ :=
          @processEntry_counted env m₁ m₂ strNodePublic naNodePublic vsWhy strReferral _ _ hm hseed st
        obtain ⟨st', hrun, hadds, hcount⟩ := ih st₁ n (by omega)
        have hcall : nodeAdd env vsWhy strReferral = some (if (setNodePublic env strRefered).1 then
            .nodeAddPublic (setNodePublic env strRefered).2 vsWhy strComment
            else .nodeAddDomain strRefered vsWhy strComment) := by
          rw [nodeAdd, hm]
          rfl
        rw [hentry, List.filter_cons_of_pos hacc, List.take_succ_cons, List.filterMap_cons, hcall]
        refine ⟨st', hrun, ?_, ?_⟩
        · rw [hadds, hadd, List.append_assoc]
          rfl
        · rw [hcount, hone, List.length_cons]
          omega

/-- A list that is nobody's: no referrals are stored. -/
lemma processValidators_clear (strSource : Bytes) (entries : List Bytes) (db : ValidatorReferrals) :
    processValidators env m₁ m₂ clear vsWhy strSource (some entries) db =
      .ok (deleteReferrals strSource db, (taken env m₁ m₂ entries).filterMap (nodeAdd env vsWhy),
        (taken env m₁ m₂ entries).length) := by
  have hvalid : clear.isValid env = false := rfl
  obtain ⟨st, hrun, hadds, hcount⟩ := @processEntries_adds env m₁ m₂ strSource clear vsWhy entries ⟨0, [], []⟩
    REFERRAL_VALIDATORS_MAX (Nat.zero_add _)
  have hvalues := processEntries_values hvalid hrun
  rw [List.nil_append] at hadds
  rw [Nat.zero_add] at hcount
  rw [processValidators, hvalid, if_neg Bool.false_ne_true]
  simp only [bind, Except.bind, pure, Except.pure, Option.getD_some, hrun, hvalues, if_true, hadds, hcount]
  rfl

/-! ### What the lists add -/

/-- The file that is read first. -/
def Config.file (config : Config) : Bytes :=
  if config.UNL_DEFAULT ≠ [] then config.UNL_DEFAULT else VALIDATORS_FILE_NAME

/-- The entries of a list of validators. -/
def validatorEntries (strValidators : Bytes) : List Bytes :=
  (sectionEntries (ParseSection strValidators true) SECTION_VALIDATORS).getD []

/-- The entries of the file that is read. -/
def fileEntries (files : Bytes → Option Bytes) (config : Config) : List Bytes :=
  (files config.file).elim [] validatorEntries

lemma Config.file_ne_nil (config : Config) : config.file ≠ [] := by
  unfold file
  split
  next hne => exact hne
  · exact List.cons_ne_nil _ _

lemma nodeProcess_eq (strValidators strSource : Bytes) {b : Bootstrap} (h : WrittenReferrals env b.ValidatorReferrals) :
    ∃ db, nodeProcess env m₁ m₂ strValidators strSource b =
        .ok { b with
          ValidatorReferrals := db
          adds := b.adds ++ (taken env m₁ m₂ (validatorEntries strValidators)).filterMap (nodeAdd env .vsValidator) } ∧
      WrittenReferrals env db := by
  unfold nodeProcess validatorEntries
  cases sectionEntries (ParseSection strValidators true) SECTION_VALIDATORS with
  | none => exact ⟨b.ValidatorReferrals, by simp [taken], h⟩
  | some entries =>
    have hrun := @processValidators_clear env m₁ m₂ .vsValidator strSource entries b.ValidatorReferrals
    refine ⟨_, ?_, h.process hrun⟩
    simp only [hrun, bind, Except.bind]
    rfl

/-- A file is read, if it can be. -/
lemma nodeLoad_eq (files : Bytes → Option Bytes) {pConfig : Bytes} (hpath : pConfig ≠ []) {b : Bootstrap}
    (h : WrittenReferrals env b.ValidatorReferrals) :
    ∃ db, nodeLoad env m₁ m₂ files pConfig b =
        .ok ⟨db, b.adds ++ (taken env m₁ m₂ ((files pConfig).elim [] validatorEntries)).filterMap
          (nodeAdd env .vsValidator), (files pConfig).isSome⟩ ∧ WrittenReferrals env db := by
  rw [nodeLoad, if_neg hpath]
  cases files pConfig with
  | none => exact ⟨b.ValidatorReferrals, by simp [taken], h⟩
  | some strValidators =>
    obtain ⟨db, hrun, hdb⟩ := @nodeProcess_eq env m₁ m₂ strValidators pConfig b h
    refine ⟨db, ?_, hdb⟩
    simp only [hrun, bind, Except.bind]
    rfl

lemma loadFiles_eq (files : Bytes → Option Bytes) (config : Config) {db : ValidatorReferrals}
    (h : WrittenReferrals env db) :
    ∃ db', loadFiles env m₁ m₂ files config ⟨db, [], false⟩ =
        .ok ⟨db', (taken env m₁ m₂ (fileEntries files config)).filterMap (nodeAdd env .vsValidator),
          (files config.file).isSome⟩ ∧ WrittenReferrals env db' := by
  obtain ⟨db', hload, hdb'⟩ := @nodeLoad_eq env m₁ m₂ files config.file config.file_ne_nil ⟨db, [], false⟩ h
  refine ⟨db', Eq.trans ?_ hload, hdb'⟩
  rw [loadFiles, Config.file]
  by_cases hunl : config.UNL_DEFAULT = []
  · simp [hunl]
  · simp [hunl]

/-- **The lists that are read**, when nothing is counted as loaded. -/
theorem nodeBootstrap_eq (files : Bytes → Option Bytes) (config : Config) {db : ValidatorReferrals}
    (h : WrittenReferrals env db) :
    ∃ b, nodeBootstrap env m₁ m₂ files config false db = .ok b ∧ WrittenReferrals env b.ValidatorReferrals ∧
      b.adds = (taken env m₁ m₂ (fileEntries files config)).filterMap (nodeAdd env .vsValidator) ++
        (taken env m₁ m₂ config.VALIDATORS).filterMap (nodeAdd env .vsConfig) ∧
      (b.bLoaded = true ↔ (files config.file).isSome = true ∨ taken env m₁ m₂ config.VALIDATORS ≠ []) := by
  obtain ⟨db', hload, hdb'⟩ := @loadFiles_eq env m₁ m₂ files config db h
  rw [nodeBootstrap, hload]
  by_cases hnone : config.VALIDATORS = []
  · exact ⟨_, if_pos hnone, hdb', by simp [hnone, taken], by simp [hnone, taken]⟩
  · have hrun := @processValidators_clear env m₁ m₂ .vsConfig CONFIG_FILE_NAME config.VALIDATORS db'
    refine ⟨⟨_, _, (files config.file).isSome || (taken env m₁ m₂ config.VALIDATORS).length ≠ 0⟩, ?_,
      hdb'.process hrun, rfl, ?_⟩
    · simp only [bind, Except.bind, if_neg hnone, hrun]
      rfl
    · simp

/-! ### The sizes -/

/-- The captures are parts of the entry. -/
lemma reReferral_length {strReferral strRefered strComment : Bytes}
    (h : reReferral strReferral = some (strRefered, strComment)) :
    strRefered.length ≤ strReferral.length ∧ strComment.length ≤ strReferral.length := by
  unfold reReferral at h
  dsimp only at h
  split at h
  · cases h
  · obtain ⟨rfl, rfl⟩ := Prod.mk.inj (Option.some_inj.1 h)
    have hstr := (List.dropWhile_sublist isSpace (l := strReferral)).length_le
    have hspaced := (List.dropWhile_sublist (!isSpace ·) (l := strReferral.dropWhile isSpace)).length_le
    constructor
    · exact ((List.takeWhile_sublist _).length_le).trans hstr
    · generalize (strReferral.dropWhile isSpace).dropWhile (!isSpace ·) = spaced at hspaced
      split
      · cases hlast : (spaced.drop 1).getLast? with
        | none => exact Nat.zero_le _
        | some c =>
          have hmem := List.mem_of_mem_drop (List.mem_of_getLast? hlast)
          have hpos := List.length_pos_of_mem hmem
          simp only [Option.toList_some, List.length_singleton]
          omega
      · exact ((List.dropWhile_sublist _).length_le).trans (hspaced.trans hstr)

end

/-! ### The addresses -/

section

variable {Address : Type} {asio : Addresses Address}

/-- The key of an address. -/
def ipKey (ep : IpPort) : Value := .blob (ConnectionPool.ipPortText ep)

lemma configIps_ok {ips : List Bytes} (h : ∀ strPeer ∈ ips, ¬ Throws asio strPeer) :
    configIps asio ips = .ok ((endpoints asio ips).map fun ep => some (configRow (ipKey ep))) := by
  induction ips with
  | nil => rfl
  | cons strPeer ips ih =>
    rw [List.forall_mem_cons] at h
    have hcons : endpoints asio (strPeer :: ips) =
        (endpoint? asio strPeer).elim (endpoints asio ips) (· :: endpoints asio ips) := by
      rw [endpoints, List.filterMap_cons]
      cases endpoint? asio strPeer <;> rfl
    rw [configIps, ih h.2, hcons]
    rcases @parse_cases _ asio strPeer with ⟨hthrows, -⟩ | ⟨-, hread⟩
    · exact absurd hthrows h.1
    · rcases hread with ⟨-, hnone, strIP, iPort, hparse⟩ | ⟨-, strIP, iPort, hsome, hparse⟩
      · rw [hnone, hparse]
        rfl
      · rw [hsome, hparse]
        simp only [bind, Except.bind, pure, Except.pure, if_true, literal_sqlEscape, Option.map_some]
        rfl

/-- The first port that is no `int` ends the call. -/
lemma configIps_error {ips : List Bytes} (h : ∃ strPeer ∈ ips, Throws asio strPeer) :
    configIps asio ips = .error .badLexicalCast := by
  induction ips with
  | nil => simp at h
  | cons strPeer ips ih =>
    rw [configIps]
    by_cases hthrows : Throws asio strPeer
    · rw [parseIpPort_error_iff.2 hthrows]
      rfl
    · obtain ⟨strPeer', hmem, hthrows'⟩ := h
      have hrest := ih ⟨strPeer', (List.mem_cons.1 hmem).resolve_left fun he => hthrows (he ▸ hthrows'), hthrows'⟩
      rcases @parse_cases _ asio strPeer with ⟨hthrows', -⟩ | ⟨-, hread⟩
      · exact absurd hthrows' hthrows
      · rcases hread with ⟨-, -, strIP, iPort, hparse⟩ | ⟨-, strIP, iPort, -, hparse⟩
        · rw [hparse, hrest]
          rfl
        · rw [hparse, hrest]
          rfl

/-- **The addresses of the configuration are new again**: each has a new row, whatever was known of it, and no other
row is touched. -/
theorem bootstrapIps_find {config : Config} (h : ∀ strPeer ∈ config.IPS, ¬ Throws asio strPeer) (peers : PeerIps) :
    ∃ peers', bootstrapIps asio config peers = .ok peers' ∧
      (∀ ep ∈ endpoints asio config.IPS,
        peers'.find (ipKey ep) = some (configRow (ipKey ep))) ∧
      ∀ k, (∀ ep ∈ endpoints asio config.IPS, ipKey ep ≠ k) → peers'.find k = peers.find k := by
  have hmapM : ((endpoints asio config.IPS).map fun ep => some (configRow (ipKey ep))).mapM id =
      some ((endpoints asio config.IPS).map fun ep => configRow (ipKey ep)) := by
    induction endpoints asio config.IPS with
    | nil => rfl
    | cons ep eps ih => simp_all [List.mapM_cons]
  refine ⟨peers.replaceAll ((endpoints asio config.IPS).map fun ep => configRow (ipKey ep)), ?_, fun ep hep => ?_,
    fun k hk => Table.find_replaceAll_of_notMem fun hmem => ?_⟩
  · rw [bootstrapIps, configIps_ok h]
    simp only [bind, Except.bind, hmapM, Option.elim_some]
    rfl
  · obtain ⟨row, hrow, hfind⟩ := @Table.find_replaceAll_of_mem _ _ PeerIpRow.IpPort _
      ((endpoints asio config.IPS).map fun ep => configRow (ipKey ep)) (ipKey ep) peers
      (List.mem_map.2 ⟨_, List.mem_map_of_mem hep, rfl⟩)
    obtain ⟨ep', -, rfl⟩ := List.mem_map.1 hrow
    have hkey : ipKey ep' = ipKey ep := (Table.find_eq_some.1 hfind).2
    rw [hfind, hkey]
  · obtain ⟨row, hrow, hkey⟩ := List.mem_map.1 hmem
    obtain ⟨ep, hep, rfl⟩ := List.mem_map.1 hrow
    exact hk ep hep hkey

/-- The call throws exactly if some address comes with a number that is no `int`, and then nothing is written. -/
theorem bootstrapIps_error_iff {config : Config} {peers : PeerIps} :
    bootstrapIps asio config peers = .error .badLexicalCast ↔ ∃ strPeer ∈ config.IPS, Throws asio strPeer := by
  constructor
  · intro herror
    by_contra hnone
    push Not at hnone
    obtain ⟨peers', hok, -⟩ := bootstrapIps_find hnone peers
    rw [hok] at herror
    cases herror
  · intro h
    rw [bootstrapIps, configIps_error h]
    rfl

end

/-! ### Running the adds -/

namespace SeedRecords

open Seeds (Functions)

/-- The call, as an operation on the tables. -/
def operation : NodeAdd → Operation
  | .nodeAddPublic naNodePublic vsWhy strComment => .nodeAddPublic naNodePublic vsWhy strComment
  | .nodeAddDomain strDomain vsWhy strComment => .nodeAddDomain strDomain vsWhy strComment

/-- These operations are the calls, in order, and fetches that they led to. -/
def Performs (adds : List NodeAdd) (calls : List (Moment × Operation)) : Prop :=
  (calls.map Prod.snd).filter (· ≠ .fetchNext) = adds.map operation

section

variable {adds : List NodeAdd} {calls : List (Moment × Operation)}

lemma Performs.cases (h : Performs adds calls) {c : Moment × Operation} (hc : c ∈ calls) :
    c.2 = .fetchNext ∨ ∃ add ∈ adds, c.2 = operation add := by
  by_cases hfetch : c.2 = .fetchNext
  · exact .inl hfetch
  · have hmem : c.2 ∈ (calls.map Prod.snd).filter (· ≠ .fetchNext) :=
      List.mem_filter.2 ⟨List.mem_map_of_mem hc, by simpa using hfetch⟩
    rw [h] at hmem
    obtain ⟨add, hadd, he⟩ := List.mem_map.1 hmem
    exact .inr ⟨add, hadd, he.symm⟩

/-- The adds of a key. -/
lemma Performs.nodeAdds (h : Performs adds calls) {na : NewcoinAddress} {a : Add} :
    a ∈ SeedRecords.nodeAdds na calls ↔ .nodeAddPublic na a.vsWhy a.strComment ∈ adds := by
  have hop : ∀ op : Operation, a ∈ (op.nodeAdd na).toList ↔ op = .nodeAddPublic na a.vsWhy a.strComment := by
    intro op
    cases op with
    | nodeAddPublic naNodePublic vsWhy strComment =>
      rw [Operation.nodeAdd]
      split_ifs with hna
      · cases a
        simp [hna, eq_comm]
      · simp [hna]
    | _ => simp [Operation.nodeAdd]
  simp only [SeedRecords.nodeAdds, List.mem_flatMap, hop]
  constructor
  · rintro ⟨c, hc, hpublic⟩
    rcases h.cases hc with hfetch | ⟨add, hadd, he⟩
    · rw [hfetch] at hpublic
      cases hpublic
    · rw [hpublic] at he
      cases add with
      | nodeAddPublic naNodePublic vsWhy strComment =>
        cases he
        exact hadd
      | nodeAddDomain strDomain vsWhy strComment => cases he
  · intro hadd
    have hmem := @List.mem_map_of_mem _ _ _ _ operation hadd
    rw [← h] at hmem
    obtain ⟨c, hc, he⟩ := List.mem_map.1 (List.mem_of_mem_filter hmem)
    exact ⟨c, hc, he⟩

end

/-! ### Domains that have not been fetched -/

/-- No domain has a key. -/
def Unfetched (s : State) : Prop := ∀ r ∈ s.SeedDomains.rows, r.PublicKey = .null

section

variable {env : Functions} {i : Moment} {s s' : State}

lemma Unfetched.found (h : Unfetched s) {d : Bytes} {sd : SeedDomain}
    (hfound : getSeedDomains env.crypto d s.SeedDomains = some sd) : sd.naPublicKey = clear := by
  rw [getSeedDomains_cut] at hfound
  obtain ⟨row, hrow, rfl⟩ := Option.map_eq_some_iff.1 hfound
  exact if_pos (h row (Table.find_eq_some.1 hrow).1)

/-- A record without a key is written. -/
lemma Unfetched.set (h : Unfetched s) {sd : SeedDomain} (hkey : sd.naPublicKey = clear) {db : SeedDomains}
    (hset : setSeedDomains env.crypto sd s.SeedDomains = .ok db) : Unfetched { s with SeedDomains := db } := by
  have hvalid : ¬ sd.naPublicKey.isValid env.crypto = true := by
    rw [hkey]
    exact Bool.false_ne_true
  obtain ⟨PublicKey, hset', hcolumn⟩ :=
    @setSeedDomains_cut env.crypto sd (fun hv => absurd hv hvalid) s.SeedDomains
  obtain rfl := Except.ok.inj (hset.symm.trans hset')
  intro r hr
  rcases Table.mem_replace.1 hr with rfl | ⟨hr, -⟩
  · exact (hcolumn fun hv => absurd hv hvalid).trans (if_neg hvalid)
  · exact h r hr

lemma Unfetched.nodeAddDomain (h : Unfetched s) {strDomain strComment : Bytes} {vsWhy : ValidatorSource}
    (hrun : SeedRecords.nodeAddDomain env i strDomain vsWhy strComment s = .ok s') : Unfetched s' := by
  unfold SeedRecords.nodeAddDomain at hrun
  dsimp only at hrun
  obtain ⟨current, hpromote, hrun⟩ := bind_eq_ok.1 hrun
  cases current with
  | none =>
    obtain rfl := Except.ok.inj hrun
    exact h
  | some sn =>
    obtain ⟨db, hset, hrun⟩ := bind_eq_ok.1 hrun
    obtain rfl := Except.ok.inj hrun
    refine h.set ?_ hset
    refine (promote_key hpromote).trans ?_
    cases hfound : getSeedDomains env.crypto ((trim strDomain).map toLower) s.SeedDomains with
    | none => rfl
    | some sd => exact h.found hfound

lemma Unfetched.nodeAddPublic (h : Unfetched s) {na : NewcoinAddress} {strComment : Bytes} {vsWhy : ValidatorSource}
    (hrun : SeedRecords.nodeAddPublic env i na vsWhy strComment s = .ok s') : Unfetched s' := by
  obtain ⟨found, -, hrun⟩ := bind_eq_ok.1 hrun
  obtain ⟨current, -, hrun⟩ := bind_eq_ok.1 hrun
  cases current with
  | none =>
    obtain rfl := Except.ok.inj hrun
    exact h
  | some sn =>
    obtain ⟨db, -, hrun⟩ := bind_eq_ok.1 hrun
    obtain rfl := Except.ok.inj hrun
    exact h

lemma Unfetched.fetchNext (h : Unfetched s) (hrun : SeedRecords.fetchNext env i s = .ok s') : Unfetched s' := by
  unfold SeedRecords.fetchNext at hrun
  split at hrun
  · obtain rfl := Except.ok.inj hrun
    exact h
  · dsimp only at hrun
    split_ifs at hrun
    · obtain rfl := Except.ok.inj hrun
      exact h
    · obtain rfl := Except.ok.inj hrun
      exact h
    · cases hfound : getSeedDomains env.crypto _ s.SeedDomains with
      | none =>
        rw [hfound] at hrun
        cases hrun
      | some sd =>
        rw [hfound, Option.elim_some] at hrun
        obtain ⟨db, hset, hrun⟩ := bind_eq_ok.1 hrun
        obtain rfl := Except.ok.inj hrun
        have hkey := h.found hfound
        refine h.set ?_ hset
        exact hkey

/-- **No answer has come** while a list is read, by induction on the operations from the first on. -/
lemma Performs.unfetched {adds : List NodeAdd} {calls : List (Moment × Operation)}
    (hcalls : ∀ c ∈ calls, c.2 = .fetchNext ∨ ∃ add ∈ adds, c.2 = operation add) (hrun : run env calls = .ok s) :
    Unfetched s := by
  induction calls using List.reverseRecOn generalizing s with
  | nil =>
    obtain rfl := Except.ok.inj hrun
    exact fun r hr => absurd hr List.not_mem_nil
  | append_singleton calls c ih =>
    rw [run_concat] at hrun
    obtain ⟨s₁, hrun, hstep⟩ := bind_eq_ok.1 hrun
    have hs₁ := ih (fun c hc => hcalls c (List.mem_append_left _ hc)) hrun
    rcases hcalls c (List.mem_append_right _ (List.mem_singleton_self c)) with hfetch | ⟨add, -, hop⟩
    · rw [hfetch] at hstep
      exact hs₁.fetchNext hstep
    · rw [hop] at hstep
      cases add with
      | nodeAddPublic naNodePublic vsWhy strComment => exact hs₁.nodeAddPublic hstep
      | nodeAddDomain strDomain vsWhy strComment => exact hs₁.nodeAddDomain hstep

end

/-! ### Whom a new node trusts -/

/-- A list names this key: its text begins an entry that is taken. -/
def Listed (env : Crypto) (m₁ m₂ : Rfc1751.Stale) (entries : List Bytes) (na : NewcoinAddress) : Prop :=
  ∃ e ∈ taken env m₁ m₂ entries, ∃ strRefered strComment, reReferral e = some (strRefered, strComment) ∧
    setNodePublic env strRefered = (true, na)

section

variable {env : Crypto} {m₁ m₂ : Rfc1751.Stale} {entries : List Bytes} {vsWhy : ValidatorSource}

/-- The keys that a list adds are those it names. -/
lemma exists_nodeAdd_public {na : NewcoinAddress} {vs : ValidatorSource} :
    (∃ strComment, .nodeAddPublic na vs strComment ∈
      (taken env m₁ m₂ entries).filterMap (nodeAdd env vsWhy)) ↔ vs = vsWhy ∧ Listed env m₁ m₂ entries na := by
  simp only [List.mem_filterMap, nodeAdd, Option.map_eq_some_iff]
  constructor
  · rintro ⟨strComment, e, he, ⟨w, c⟩, hm, hadd⟩
    dsimp only at hadd
    split at hadd
    next hpublic =>
      obtain ⟨rfl, rfl, rfl⟩ := NodeAdd.nodeAddPublic.inj hadd
      exact ⟨rfl, e, he, w, c, hm, Prod.ext hpublic rfl⟩
    · cases hadd
  · rintro ⟨rfl, e, he, w, strComment, hm, hpublic⟩
    refine ⟨strComment, e, he, (w, strComment), hm, ?_⟩
    rw [hpublic]
    rfl

lemma mem_of_taken {e : Bytes} (h : e ∈ taken env m₁ m₂ entries) : e ∈ entries := by
  unfold taken at h
  exact (List.mem_filter.1 (List.mem_of_mem_take h)).1

/-- What a list adds has sizes that are not cut. -/
lemma sized_operation {env : Functions} (hshort : ∀ e ∈ entries, e.length < 2 ^ 30)
    (hvalid : ∀ na, Listed env.crypto m₁ m₂ entries na → na.isValid env.crypto = true) {add : NodeAdd}
    (hadd : add ∈ (taken env.crypto m₁ m₂ entries).filterMap (nodeAdd env.crypto vsWhy)) :
    (operation add).Sized env := by
  obtain ⟨e, he, hadd⟩ := List.mem_filterMap.1 hadd
  obtain ⟨⟨w, c⟩, hm, rfl⟩ := Option.map_eq_some_iff.1 hadd
  have hlen := hshort e (mem_of_taken he)
  obtain ⟨hw, hc⟩ := reReferral_length hm
  dsimp only
  split
  next hpublic =>
    exact ⟨SetString_eq env.crypto hpublic, hvalid _ ⟨e, he, w, c, hm, Prod.ext hpublic rfl⟩, by omega⟩
  · refine ⟨?_, by omega⟩
    rw [trim_word (reReferral_word hm)]
    omega

end

/-- What a new node says of a validator: it has the points of the list that names it, of the configuration's if
both do. -/
structure TrustsListed (env : Crypto) (inFile inConfig : Prop) (t : Table TrustedNode.PublicKey) (mUNL : Finset Bytes)
    (na : NewcoinAddress) : Prop where
  config : inConfig → scoreIn t (na.ToString env) = 1500
  file : ¬ inConfig → inFile → scoreIn t (na.ToString env) = 1000
  others : ¬ inConfig → ¬ inFile → scoreIn t (na.ToString env) = 0
  listed : nodeInUNL env mUNL na = .ok true ↔ inFile ∨ inConfig
  loaded : nodeInUNL env (trustedLoad t) na = .ok true ↔ inFile ∨ inConfig

/-- The adds of both lists, by source. -/
lemma trustsListed_of_best {env : Functions} {added : Add → Prop} {inFile inConfig : Prop}
    {t : Table TrustedNode.PublicKey} {mUNL : Finset Bytes} {na : NewcoinAddress}
    (h : ScoredBest env added t mUNL na)
    (hadded : ∀ vs, (∃ strComment, added ⟨vs, strComment⟩) ↔ vs = .vsValidator ∧ inFile ∨ vs = .vsConfig ∧ inConfig) :
    TrustsListed env.crypto inFile inConfig t mUNL na := by
  have hscores : {n | ∃ a, added a ∧ a.score = n} = {n | inFile ∧ n = 1000 ∨ inConfig ∧ n = 1500} := by
    ext n
    constructor
    · rintro ⟨⟨vs, c⟩, ha, rfl⟩
      rcases (hadded vs).1 ⟨c, ha⟩ with ⟨rfl, hin⟩ | ⟨rfl, hin⟩
      · exact .inl ⟨hin, rfl⟩
      · exact .inr ⟨hin, rfl⟩
    · rintro (⟨hin, rfl⟩ | ⟨hin, rfl⟩)
      · obtain ⟨c, hc⟩ := (hadded .vsValidator).2 (.inl ⟨rfl, hin⟩)
        exact ⟨_, hc, rfl⟩
      · obtain ⟨c, hc⟩ := (hadded .vsConfig).2 (.inr ⟨rfl, hin⟩)
        exact ⟨_, hc, rfl⟩
  have hsome : (∃ a, added a) ↔ inFile ∨ inConfig := by
    constructor
    · rintro ⟨⟨vs, c⟩, ha⟩
      exact ((hadded vs).1 ⟨c, ha⟩).imp And.right And.right
    · rintro (hin | hin)
      · obtain ⟨c, hc⟩ := (hadded .vsValidator).2 (.inl ⟨rfl, hin⟩)
        exact ⟨_, hc⟩
      · obtain ⟨c, hc⟩ := (hadded .vsConfig).2 (.inr ⟨rfl, hin⟩)
        exact ⟨_, hc⟩
  have hpos : ∀ a, added a → 0 < a.score := by
    rintro ⟨vs, c⟩ ha
    have hscore : (0 : ℤ) < Seeds.sourceScore .vsValidator ∧ (0 : ℤ) < Seeds.sourceScore .vsConfig := by decide
    rcases (hadded vs).1 ⟨c, ha⟩ with ⟨rfl, -⟩ | ⟨rfl, -⟩
    · exact hscore.1
    · exact hscore.2
  have hscore := h.score
  rw [hscores] at hscore
  refine ⟨fun hin => ?_, fun hout hin => ?_, fun hout hout' => ?_, h.listed.trans hsome, h.loaded.trans ?_⟩
  · refine hscore.unique ⟨.inr (.inr ⟨hin, rfl⟩), ?_⟩
    rintro n (rfl | ⟨-, rfl⟩ | ⟨-, rfl⟩) <;> norm_num
  · refine hscore.unique ⟨.inr (.inl ⟨hin, rfl⟩), ?_⟩
    rintro n (rfl | ⟨-, rfl⟩ | ⟨hin', -⟩)
    · norm_num
    · exact le_rfl
    · exact absurd hin' hout
  · refine hscore.unique ⟨.inl rfl, ?_⟩
    rintro n (rfl | ⟨hin, -⟩ | ⟨hin, -⟩)
    · exact le_rfl
    · exact absurd hin hout'
    · exact absurd hin hout
  · rw [← hsome]
    exact exists_congr fun a => and_iff_left_of_imp (hpos a)

/-- **A new node trusts whom its lists name.**  It starts with empty tables; the lists have entries of less than
2^30 bytes, and name no key that is no point.  Then the calls run to their end, whatever the clock and the fetches do
in between, and scoring gives each node the points of its list.  The network is asked exactly if there is no file and
the configuration lists nobody. -/
theorem bootstrap_trust {env : Functions} {m₁ m₂ : Rfc1751.Stale} (hpoints : TakesPoints env.crypto)
    (files : Bytes → Option Bytes) (config : Config)
    (hshort : ∀ e ∈ fileEntries files config ++ config.VALIDATORS, e.length < 2 ^ 30)
    (hvalid : ∀ na, Listed env.crypto m₁ m₂ (fileEntries files config) na ∨
      Listed env.crypto m₁ m₂ config.VALIDATORS na → na.isValid env.crypto = true) :
    ∃ b, nodeBootstrap env.crypto m₁ m₂ files config (bLoaded Table.empty Table.empty) Table.empty = .ok b ∧
      (nodeNetwork config b = some config.VALIDATORS_SITE ↔
        files config.file = none ∧ taken env.crypto m₁ m₂ config.VALIDATORS = []) ∧
      ∀ calls, Performs b.adds calls → ∃ s, run env calls = .ok s ∧ ∀ trusted : Table TrustedNode.PublicKey,
        ∃ n, ∀ fuel ≥ n, ∃ t mUNL,
          scoreCompute env.crypto fuel (s.wallet b.ValidatorReferrals trusted) = some (.ok (t, mUNL)) ∧
          ∀ na : NewcoinAddress, na.nVersion = VER_NODE_PUBLIC →
            TrustsListed env.crypto (Listed env.crypto m₁ m₂ (fileEntries files config) na)
              (Listed env.crypto m₁ m₂ config.VALIDATORS na) t mUNL na := by
  obtain ⟨b, hboot, hreferrals, hadds, hloaded⟩ :=
    @nodeBootstrap_eq env.crypto m₁ m₂ files config Table.empty .empty
  refine ⟨b, hboot, ?_, fun calls hcalls => ?_⟩
  · rw [nodeNetwork]
    have hnot : b.bLoaded = false ↔
        files config.file = none ∧ taken env.crypto m₁ m₂ config.VALIDATORS = [] := by
      rw [← Bool.not_eq_true, hloaded, not_or, Option.not_isSome_iff_eq_none, not_not]
    rw [← hnot]
    cases b.bLoaded <;> simp
  · have hsized : ∀ c ∈ calls, c.2.Sized env := by
      intro c hc
      rcases hcalls.cases hc with hfetch | ⟨add, hadd, hop⟩
      · rw [hfetch]
        exact trivial
      · rw [hop]
        rw [hadds, List.mem_append] at hadd
        rcases hadd with hadd | hadd
        · exact sized_operation (fun e he => hshort e (List.mem_append_left _ he))
            (fun na hna => hvalid na (.inl hna)) hadd
        · exact sized_operation (fun e he => hshort e (List.mem_append_right _ he))
            (fun na hna => hvalid na (.inr hna)) hadd
    obtain ⟨s, hrun, hscored⟩ := score_of_adds hpoints hsized
    refine ⟨s, hrun, fun trusted => ?_⟩
    obtain ⟨n, hends⟩ := hscored _ hreferrals trusted
    refine ⟨n, fun fuel hfuel => ?_⟩
    obtain ⟨t, mUNL, hscore, hbest⟩ := hends fuel hfuel
    refine ⟨t, mUNL, hscore, fun na hversion => trustsListed_of_best (hbest na hversion) fun vs => ?_⟩
    have hunfetched := Performs.unfetched (fun c hc => hcalls.cases hc) hrun
    have hadded (c : Bytes) : AddedBy env calls s na ⟨vs, c⟩ ↔ .nodeAddPublic na vs c ∈ b.adds := by
      rw [AddedBy, hcalls.nodeAdds, or_iff_left]
      rintro ⟨d, sd, hfound, rfl, -⟩
      rw [hunfetched.found hfound] at hversion
      exact absurd hversion (by decide)
    simp only [hadded, hadds, List.mem_append, exists_or, exists_nodeAdd_public]

/-- A list in the current directory that names one node, and another one in the configuration. -/
def twoLists : Config := ⟨[], cString "redstem.com", [referral], []⟩

def listFile (path : Bytes) : Option Bytes :=
  if path = VALIDATORS_FILE_NAME then some (cString "[validators]\n" ++ referrerText ++ cString " first\n") else none

theorem bootstrap_trust_twoLists :
    ∃ b, nodeBootstrap Seeds.keys.crypto (fun _ _ _ => 0) (fun _ _ _ => 0) listFile twoLists
        (bLoaded Table.empty Table.empty) Table.empty = .ok b ∧
      (nodeNetwork twoLists b = some twoLists.VALIDATORS_SITE ↔ listFile twoLists.file = none ∧
        taken Seeds.keys.crypto (fun _ _ _ => 0) (fun _ _ _ => 0) twoLists.VALIDATORS = []) ∧
      ∀ calls, Performs b.adds calls → ∃ s, run Seeds.keys calls = .ok s ∧ ∀ trusted : Table TrustedNode.PublicKey,
        ∃ n, ∀ fuel ≥ n, ∃ t mUNL,
          scoreCompute Seeds.keys.crypto fuel (s.wallet b.ValidatorReferrals trusted) = some (.ok (t, mUNL)) ∧
          ∀ na : NewcoinAddress, na.nVersion = VER_NODE_PUBLIC → TrustsListed Seeds.keys.crypto
            (Listed Seeds.keys.crypto (fun _ _ _ => 0) (fun _ _ _ => 0) (fileEntries listFile twoLists) na)
            (Listed Seeds.keys.crypto (fun _ _ _ => 0) (fun _ _ _ => 0) twoLists.VALIDATORS na) t mUNL na := by
  have hfile : fileEntries listFile twoLists = [referrerText ++ cString " first"] := by decide +kernel
  have hvalid : ∀ e ∈ [referrerText ++ cString " first", referral], ∀ w c na, reReferral e = some (w, c) →
      setNodePublic twoKeys w = (true, na) → na.isValid twoKeys = true := by
    intro e he w c na hm hpublic
    rcases List.mem_cons.1 he with rfl | he
    · have hfirst : reReferral (referrerText ++ cString " first") = some (referrerText, cString "first") := by
        decide +kernel
      obtain ⟨rfl, -⟩ := Prod.mk.inj (Option.some_inj.1 (hfirst.symm.trans hm))
      rw [setNodePublic_referrerText] at hpublic
      obtain rfl := congrArg Prod.snd hpublic
      decide
    · obtain rfl := List.mem_singleton.1 he
      have hsecond : reReferral referral = some (referredText, cString "second") := by decide
      obtain ⟨rfl, -⟩ := Prod.mk.inj (Option.some_inj.1 (hsecond.symm.trans hm))
      rw [setNodePublic_referredText] at hpublic
      obtain rfl := congrArg Prod.snd hpublic
      decide
  refine bootstrap_trust takesPoints_twoKeys listFile twoLists ?_ ?_
  · rw [hfile]
    decide
  · rw [hfile]
    rintro na (⟨e, he, w, c, hm, hpublic⟩ | ⟨e, he, w, c, hm, hpublic⟩)
    · exact hvalid e (List.mem_cons.2 (.inl (List.mem_singleton.1 (mem_of_taken he)))) w c na hm hpublic
    · exact hvalid e (List.mem_cons_of_mem _ (mem_of_taken he)) w c na hm hpublic

end SeedRecords

end Newcoin.UniqueNodeList
