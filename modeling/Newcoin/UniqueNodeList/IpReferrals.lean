import Newcoin.ParseIpPort
import Newcoin.UniqueNodeList.Validators

/-!
# `[ips]` sections

`processIps` replaces the rows of `IpReferrals` for one validator.  The rows go through a vector that is
sized by one limit and filled up to another; they are the same.

* `processIpLines_eq`: which rows the loop collects, and where it writes them.
* `processIpLines_error_iff`: when it throws.
* `processIps_replaces`: what the table holds afterwards.
* `hostile_text`: which texts leave it without the rows.
-/

namespace Newcoin.UniqueNodeList

open Lib.Sql NewcoinAddress

/-! ### The model -/

def REFERRAL_IPS_MAX : ℕ := 50

/-- A row of `IpReferrals`. -/
structure IpReferral where
  /-- Public key of referrer. -/
  Validator : Value
  /-- Entry index in `[ips]` table. -/
  Entry : ℤ
  IP : Value
  /-- `-1` for the default. -/
  Port : Value
  deriving DecidableEq, Repr

abbrev IpReferrals := Table fun r : IpReferral => (r.Validator, r.Entry)

/-- `(%s,%d,%s,%d)`: two literals and two numbers. -/
structure IpValues where
  strEscNodePublic : Bytes
  iValues : ℕ
  strEscIP : Bytes
  iPort : ℤ

/-- `vstrValues.resize(n)`; `none` is an empty string. -/
def resizeValues (n : ℕ) (vstrValues : List (Option IpValues)) : List (Option IpValues) :=
  vstrValues.take n ++ List.replicate (n - vstrValues.length) none

/-- `vstrValues[iValues] = …`. -/
def writeValues (vstrValues : List (Option IpValues)) (v : IpValues) : Except Fault (List (Option IpValues)) :=
  if v.iValues < vstrValues.length then .ok (vstrValues.set v.iValues (some v)) else .error .outOfBounds

section

variable {Address : Type} (env : Crypto) (asio : Addresses Address) (strEscNodePublic : Bytes)

/-- The loop over the lines: `iValues` and `vstrValues` after it. -/
def processIpLines : ℕ → List (Option IpValues) → List Bytes → Except Fault (ℕ × List (Option IpValues))
  | iValues, vstrValues, [] => .ok (iValues, vstrValues)
  | iValues, vstrValues, strReferral :: rest =>
    if iValues = REFERRAL_VALIDATORS_MAX then .ok (iValues, vstrValues)
    else do
      -- `strIP` and `iPort` are new variables, read only if the line is valid
      let (bValid, strIP, iPort) ← parseIpPort asio strReferral [] 0
      if bValid then
        let vstrValues ← writeValues vstrValues ⟨strEscNodePublic, iValues, Database.escape strIP, iPort⟩
        processIpLines (iValues + 1) vstrValues rest
      else processIpLines iValues vstrValues rest

/-- The row of a value; an empty string is none. -/
def ipReferralRow (v : IpValues) : Option IpReferral :=
  (literal v.strEscNodePublic).bind fun Validator =>
    (literal v.strEscIP).map fun IP => ⟨Validator, v.iValues, IP, .integer v.iPort⟩

/-- `INSERT INTO IpReferrals (Validator,Entry,IP,Port) VALUES …`. -/
def insertIps (vstrValues : List (Option IpValues)) (db : IpReferrals) : IpReferrals :=
  (vstrValues.mapM fun v : Option IpValues => v.bind ipReferralRow).elim db fun rows => db.insert rows

/-- `processIps`: the table when it returns or throws, and what it throws. -/
def processIps (naNodePublic : NewcoinAddress) (pmtVecStrIps : Option (List Bytes)) (db : IpReferrals) :
    IpReferrals × Option Fault :=
  match naNodePublic.humanNodePublic env with
  | .error fault => (db, some fault)
  | .ok strNodePublic =>
    let strEscNodePublic := sqlEscape strNodePublic
    let db := db.delete fun r => literal strEscNodePublic = some r.Validator
    let ips := pmtVecStrIps.getD []
    if ips = [] then (db, none)
    else
      let vstrValues := resizeValues (min ips.length REFERRAL_IPS_MAX) []
      match processIpLines asio strEscNodePublic 0 vstrValues ips with
      | .error fault => (db, some fault)
      | .ok (iValues, vstrValues) =>
        (if iValues = 0 then db else insertIps (resizeValues iValues vstrValues) db, none)

/-! ### The loop -/

/-- The address and the port of a line that `parseIpPort` accepts. -/
def endpoint? (strReferral : Bytes) : Option (Bytes × ℤ) :=
  (parseIpPort asio strReferral [] 0).toOption.bind fun r => if r.1 then some r.2 else none

/-- A line begins with an address. -/
def hasAddress (strReferral : Bytes) : Bool := (reEndpoint strReferral).any fun m => (asio.from_string m.1).isSome

/-- What is written for the `i`-th line that is accepted. -/
def ipValues (i : ℕ) (e : Bytes × ℤ) : IpValues := ⟨strEscNodePublic, i, Database.escape e.1, e.2⟩

variable {asio strEscNodePublic}

/-- A line throws, is rejected, or is accepted. -/
lemma parse_cases (strReferral : Bytes) :
    (Throws asio strReferral ∧ parseIpPort asio strReferral [] 0 = .error .badLexicalCast) ∨
      ¬ Throws asio strReferral ∧
        ((hasAddress asio strReferral = false ∧ endpoint? asio strReferral = none ∧ ∃ strIP iPort,
            parseIpPort asio strReferral [] 0 = .ok (false, strIP, iPort)) ∨
          hasAddress asio strReferral = true ∧ ∃ strIP iPort, endpoint? asio strReferral = some (strIP, iPort) ∧
            parseIpPort asio strReferral [] 0 = .ok (true, strIP, iPort)) := by
  by_cases hthrows : Throws asio strReferral
  · exact .inl ⟨hthrows, parseIpPort_error_iff.2 hthrows⟩
  refine .inr ⟨hthrows, ?_⟩
  unfold endpoint? hasAddress
  rcases @refused_or_address Address asio strReferral with h | ⟨word, digits, addrIP, hmatch, haddr⟩
  · rw [parseIpPort_of_refused h]
    refine .inl ⟨?_, rfl, [], 0, rfl⟩
    cases hmatch : reEndpoint strReferral with
    | none => rfl
    | some captures => rw [Option.any_some, h captures.1 captures.2 hmatch, Option.isSome_none]
  · have hsmall : portNumber digits < 2 ^ 31 := by
      by_contra hbig
      exact hthrows ⟨word, digits, addrIP, hmatch, haddr, not_lt.1 hbig⟩
    rw [parseIpPort_of_address hmatch haddr, if_pos hsmall, hmatch, Option.any_some, haddr]
    split_ifs
    · exact .inr ⟨rfl, _, _, rfl, rfl⟩
    · exact .inr ⟨rfl, _, _, rfl, rfl⟩

/-- The lines that are accepted. -/
abbrev endpoints (asio : Addresses Address) (ips : List Bytes) : List (Bytes × ℤ) := ips.filterMap (endpoint? asio)

/-- What the loop collects from a line on, of which the first is to be the `k`-th. -/
def collected (asio : Addresses Address) (strEscNodePublic : Bytes) (k : ℕ) (ips : List Bytes) :
    List (Option IpValues) :=
  ((endpoints asio ips).take (REFERRAL_VALIDATORS_MAX - k)).mapIdx fun i e =>
    some (ipValues strEscNodePublic (k + i) e)

lemma collected_nil (k : ℕ) : collected asio strEscNodePublic k [] = [] := by
  rw [collected, endpoints, List.filterMap_nil, List.take_nil]
  rfl

lemma collected_of_full (ips : List Bytes) :
    collected asio strEscNodePublic REFERRAL_VALIDATORS_MAX ips = [] := by
  rw [collected, Nat.sub_self, List.take_zero]
  rfl

lemma collected_cons_of_none {strReferral : Bytes} (h : endpoint? asio strReferral = none) (k : ℕ) (ips : List Bytes) :
    collected asio strEscNodePublic k (strReferral :: ips) = collected asio strEscNodePublic k ips := by
  rw [collected, endpoints, List.filterMap_cons_none h, ← endpoints, ← collected]

lemma collected_cons_of_some {strReferral : Bytes} {e : Bytes × ℤ} (h : endpoint? asio strReferral = some e) {k : ℕ}
    (hk : k < REFERRAL_VALIDATORS_MAX) (ips : List Bytes) :
    collected asio strEscNodePublic k (strReferral :: ips) =
      some (ipValues strEscNodePublic k e) :: collected asio strEscNodePublic (k + 1) ips := by
  obtain ⟨n, hn⟩ : ∃ n, REFERRAL_VALIDATORS_MAX - k = n + 1 := ⟨REFERRAL_VALIDATORS_MAX - k - 1, by omega⟩
  rw [collected, endpoints, List.filterMap_cons_some h, ← endpoints, collected, hn, List.take_succ_cons,
    List.mapIdx_cons, show REFERRAL_VALIDATORS_MAX - (k + 1) = n by omega]
  simp only [Nat.add_zero, Nat.add_assoc, Nat.add_comm 1]

section Step

variable {strReferral strIP : Bytes} {iPort : ℤ} {ips : List Bytes} {k : ℕ} {vstrValues : List (Option IpValues)}

lemma processIpLines_full :
    processIpLines asio strEscNodePublic REFERRAL_VALIDATORS_MAX vstrValues ips =
      .ok (REFERRAL_VALIDATORS_MAX, vstrValues) := by
  cases ips with
  | nil => rfl
  | cons s ips => exact if_pos rfl

lemma processIpLines_throws (hk : k < REFERRAL_VALIDATORS_MAX)
    (hparse : parseIpPort asio strReferral [] 0 = .error .badLexicalCast) :
    processIpLines asio strEscNodePublic k vstrValues (strReferral :: ips) = .error .badLexicalCast := by
  rw [processIpLines, if_neg hk.ne, hparse]
  rfl

lemma processIpLines_rejected (hk : k < REFERRAL_VALIDATORS_MAX)
    (hparse : parseIpPort asio strReferral [] 0 = .ok (false, strIP, iPort)) :
    processIpLines asio strEscNodePublic k vstrValues (strReferral :: ips) =
      processIpLines asio strEscNodePublic k vstrValues ips := by
  rw [processIpLines, if_neg hk.ne, hparse]
  rfl

/-- An accepted line is written, if the vector reaches so far. -/
lemma processIpLines_accepted (hk : k < REFERRAL_VALIDATORS_MAX)
    (hparse : parseIpPort asio strReferral [] 0 = .ok (true, strIP, iPort)) (hinside : k < vstrValues.length) :
    processIpLines asio strEscNodePublic k vstrValues (strReferral :: ips) =
      processIpLines asio strEscNodePublic (k + 1)
        (vstrValues.set k (some (ipValues strEscNodePublic k (strIP, iPort)))) ips := by
  have hwrite : writeValues vstrValues (ipValues strEscNodePublic k (strIP, iPort)) =
      .ok (vstrValues.set k (some (ipValues strEscNodePublic k (strIP, iPort)))) := if_pos hinside
  rw [processIpLines, if_neg hk.ne, hparse]
  exact congrArg (· >>= fun values => processIpLines asio strEscNodePublic (k + 1) values ips) hwrite

end Step

/-- The vector up to the element that is written. -/
lemma take_succ_set {α : Type*} {l : List α} {k : ℕ} (hk : k < l.length) (a : α) :
    (l.set k a).take (k + 1) = l.take k ++ [a] := by
  rw [List.take_set, List.take_add_one, List.getElem?_eq_getElem hk, Option.toList_some,
    List.set_append_right _ _ (by simp)]
  simp [Nat.min_eq_left hk.le]

/-- **The loop** writes the values of the accepted lines one after the other, within the vector, if this has room
for the lines that are left or up to the limit. -/
lemma processIpLines_eq (ips : List Bytes) (hok : ∀ s ∈ ips, ¬ Throws asio s) {k : ℕ}
    (hk : k ≤ REFERRAL_VALIDATORS_MAX) {vstrValues : List (Option IpValues)}
    (hroom : min (k + ips.length) REFERRAL_VALIDATORS_MAX ≤ vstrValues.length) :
    ∃ vstrValues', processIpLines asio strEscNodePublic k vstrValues ips =
        .ok (k + (collected asio strEscNodePublic k ips).length, vstrValues') ∧
      vstrValues'.length = vstrValues.length ∧
      vstrValues'.take (k + (collected asio strEscNodePublic k ips).length) =
        vstrValues.take k ++ collected asio strEscNodePublic k ips := by
  induction ips generalizing k vstrValues with
  | nil =>
    rw [collected_nil]
    exact ⟨vstrValues, rfl, rfl, by simp⟩
  | cons strReferral ips ih =>
    by_cases hfull : k = REFERRAL_VALIDATORS_MAX
    · subst hfull
      rw [processIpLines_full, collected_of_full]
      exact ⟨vstrValues, rfl, rfl, by simp⟩
    have hlt : k < REFERRAL_VALIDATORS_MAX := lt_of_le_of_ne hk hfull
    have hrest : ∀ s ∈ ips, ¬ Throws asio s := fun s hs => hok s (List.mem_cons_of_mem _ hs)
    rw [List.length_cons] at hroom
    rcases @parse_cases Address asio strReferral with ⟨hthrows, -⟩ | ⟨-, ⟨-, hnone, strIP, iPort, hparse⟩ |
      ⟨-, strIP, iPort, hsome, hparse⟩⟩
    · exact absurd hthrows (hok strReferral List.mem_cons_self)
    · rw [processIpLines_rejected hlt hparse, collected_cons_of_none hnone]
      exact ih hrest hk (by omega)
    · have hinside : k < vstrValues.length := by omega
      have hroom' : min (k + 1 + ips.length) REFERRAL_VALIDATORS_MAX ≤
          (vstrValues.set k (some (ipValues strEscNodePublic k (strIP, iPort)))).length := by
        rw [List.length_set]
        omega
      obtain ⟨vstrValues', hrun, hlen, htake⟩ := ih hrest hlt hroom'
      rw [List.length_set] at hlen
      have hcount : k + 1 + (collected asio strEscNodePublic (k + 1) ips).length =
          k + (collected asio strEscNodePublic k (strReferral :: ips)).length := by
        rw [collected_cons_of_some hsome hlt, List.length_cons]
        omega
      rw [hcount] at hrun htake
      refine ⟨vstrValues', ?_, hlen, ?_⟩
      · rw [processIpLines_accepted hlt hparse hinside, hrun]
      · rw [htake, collected_cons_of_some hsome hlt, take_succ_set hinside, List.append_assoc, List.singleton_append]

/-- No line throws that is read before the limit is reached; `k` have been accepted before. -/
def ReadsOn (asio : Addresses Address) (k : ℕ) (ips : List Bytes) : Prop :=
  ∀ pre s post, ips = pre ++ s :: post → k + pre.countP (hasAddress asio) < REFERRAL_VALIDATORS_MAX →
    ¬ Throws asio s

lemma readsOn_of_full (ips : List Bytes) : ReadsOn asio REFERRAL_VALIDATORS_MAX ips := by
  intro pre s post _ hlt
  omega

/-- A line that is read first does not throw, and neither does what comes after it. -/
lemma readsOn_cons {strReferral : Bytes} {ips : List Bytes} {k : ℕ} (hk : k < REFERRAL_VALIDATORS_MAX) :
    ReadsOn asio k (strReferral :: ips) ↔
      ¬ Throws asio strReferral ∧ ReadsOn asio (k + [strReferral].countP (hasAddress asio)) ips := by
  have hcount : ∀ pre, (strReferral :: pre).countP (hasAddress asio) =
      [strReferral].countP (hasAddress asio) + pre.countP (hasAddress asio) := by
    intro pre
    rw [← List.countP_append, List.singleton_append]
  constructor
  · intro h
    refine ⟨h [] strReferral ips rfl hk, ?_⟩
    rintro pre s post rfl hlt
    refine h (strReferral :: pre) s post rfl ?_
    rw [hcount]
    omega
  · rintro ⟨hfirst, hrest⟩ pre s post hips hlt
    cases pre with
    | nil =>
      obtain ⟨rfl, rfl⟩ := List.cons.inj hips
      exact hfirst
    | cons s' pre =>
      obtain ⟨rfl, rfl⟩ := List.cons.inj hips
      rw [hcount] at hlt
      exact hrest pre s post rfl (by omega)

/-- **When the loop gets to its end.** -/
lemma processIpLines_ok_iff (ips : List Bytes) {k : ℕ} (hk : k ≤ REFERRAL_VALIDATORS_MAX)
    {vstrValues : List (Option IpValues)}
    (hroom : min (k + ips.length) REFERRAL_VALIDATORS_MAX ≤ vstrValues.length) :
    (∃ r, processIpLines asio strEscNodePublic k vstrValues ips = .ok r) ↔ ReadsOn asio k ips := by
  induction ips generalizing k vstrValues with
  | nil =>
    refine iff_of_true ⟨_, rfl⟩ ?_
    intro pre s post hips
    simp at hips
  | cons strReferral ips ih =>
    by_cases hfull : k = REFERRAL_VALIDATORS_MAX
    · subst hfull
      rw [processIpLines_full]
      exact iff_of_true ⟨_, rfl⟩ (readsOn_of_full _)
    have hlt : k < REFERRAL_VALIDATORS_MAX := lt_of_le_of_ne hk hfull
    rw [List.length_cons] at hroom
    rw [readsOn_cons hlt]
    rcases @parse_cases Address asio strReferral with ⟨hthrows, hparse⟩ |
      ⟨hthrows, ⟨hrefused, -, strIP, iPort, hparse⟩ | ⟨haddress, strIP, iPort, -, hparse⟩⟩
    · rw [processIpLines_throws hlt hparse]
      refine iff_of_false ?_ fun h => h.1 hthrows
      rintro ⟨r, hr⟩
      cases hr
    · rw [processIpLines_rejected hlt hparse, List.countP_singleton, hrefused, and_iff_right hthrows]
      exact ih hk (by omega)
    · rw [processIpLines_accepted hlt hparse (by omega), List.countP_singleton, haddress, and_iff_right hthrows]
      refine ih hlt ?_
      rw [List.length_set]
      omega

/-! ### What the table holds -/

/-- The vector has room for all lines, up to the limit. -/
lemma room_of_resize (ips : List Bytes) :
    min (0 + ips.length) REFERRAL_VALIDATORS_MAX ≤
      (resizeValues (min ips.length REFERRAL_IPS_MAX) []).length := by
  simp [resizeValues, REFERRAL_VALIDATORS_MAX, REFERRAL_IPS_MAX]

/-- The rows of a validator. -/
def ipRows (asio : Addresses Address) (strNodePublic : Bytes) (ips : List Bytes) : List IpReferral :=
  ((endpoints asio ips).take REFERRAL_IPS_MAX).mapIdx fun i e =>
    ⟨.blob strNodePublic, i, .blob e.1, .integer e.2⟩

lemma mapM_of_forall {A B : Type} {f : A → Option B} {g : A → B} {l : List A} (h : ∀ a ∈ l, f a = some (g a)) :
    l.mapM f = some (l.map g) := by
  induction l with
  | nil => rfl
  | cons a l ih =>
    rw [List.mapM_cons, h a List.mem_cons_self, ih fun b hb => h b (List.mem_cons_of_mem _ hb)]
    rfl

variable {strNodePublic : Bytes}

/-- What is accepted is the text of an address. -/
lemma short_of_mem_endpoints (hshort : ∀ addrIP, (asio.to_string addrIP).length < 2 ^ 31) {ips : List Bytes}
    {e : Bytes × ℤ} (he : e ∈ endpoints asio ips) : e.1.length < 2 ^ 31 := by
  obtain ⟨s, -, hs⟩ := List.mem_filterMap.1 he
  rcases @refused_or_address Address asio s with h | ⟨word, digits, addrIP, hmatch, haddr⟩
  · rw [endpoint?, parseIpPort_of_refused h] at hs
    cases hs
  · rw [endpoint?, parseIpPort_of_address hmatch haddr] at hs
    split_ifs at hs
    · cases hs
      exact hshort addrIP
    · cases hs
      exact hshort addrIP
    · cases hs

/-- The values that are collected are those of the rows. -/
lemma mapM_collected (hshort : ∀ addrIP, (asio.to_string addrIP).length < 2 ^ 31) (ips : List Bytes) :
    ((collected asio (sqlEscape strNodePublic) 0 ips).mapM fun v : Option IpValues => v.bind ipReferralRow) =
      some (ipRows asio strNodePublic ips) := by
  rw [collected, ipRows, List.mapIdx_eq_zipIdx_map, List.mapIdx_eq_zipIdx_map, List.mapM_map]
  refine mapM_of_forall fun e he => ?_
  have hmem : e.1 ∈ endpoints asio ips := List.mem_of_mem_take (List.fst_mem_of_mem_zipIdx he)
  have hIP : literal (Database.escape e.1.1) = some (.blob e.1.1) :=
    literal_escape_iff.2 (short_of_mem_endpoints hshort hmem)
  simp only [Function.comp_apply, Option.bind_some, ipReferralRow, ipValues, literal_sqlEscape, hIP, Option.map_some,
    Nat.zero_add]

lemma entries_ipRows (ips : List Bytes) :
    (ipRows asio strNodePublic ips).map IpReferral.Entry =
      (List.range (ipRows asio strNodePublic ips).length).map Nat.cast :=
  List.ext_getElem (by simp) fun i h1 h2 => by simp [ipRows]

lemma insertIps_eq (hshort : ∀ addrIP, (asio.to_string addrIP).length < 2 ^ 31) {ips : List Bytes} {db : IpReferrals}
    (hother : ∀ r ∈ db.rows, r.Validator ≠ .blob strNodePublic) :
    (insertIps (collected asio (sqlEscape strNodePublic) 0 ips) db).rows =
      db.rows ++ ipRows asio strNodePublic ips := by
  rw [insertIps, mapM_collected hshort, Option.elim_some, Table.rows_insert]
  refine Table.nodup_append_group db.nodup hother ?_ ?_
  · intro r hr
    obtain ⟨i, hi, rfl⟩ := List.mem_mapIdx.1 hr
    rfl
  · rw [entries_ipRows]
    exact List.nodup_range.map Nat.cast_injective

/-- The rows of other validators. -/
lemma rows_deleteIps (db : IpReferrals) :
    (db.delete fun r => literal (sqlEscape strNodePublic) = some r.Validator).rows =
      db.rows.filter fun r => r.Validator ≠ .blob strNodePublic := by
  rw [Table.delete, literal_sqlEscape]
  refine List.filter_congr fun r _ => ?_
  simp only [Option.some_inj, decide_not, eq_comm]

variable {env}

/-- What the vector holds once it is cut to size. -/
lemma resizeValues_collected {ips : List Bytes} {vstrValues : List (Option IpValues)}
    (htake : vstrValues.take (collected asio strEscNodePublic 0 ips).length = collected asio strEscNodePublic 0 ips) :
    resizeValues (collected asio strEscNodePublic 0 ips).length vstrValues = collected asio strEscNodePublic 0 ips := by
  have hlen := congrArg List.length htake
  rw [List.length_take] at hlen
  rw [resizeValues, htake, Nat.sub_eq_zero_of_le (by omega), List.replicate_zero, List.append_nil]

/-- What the call leaves, where no line throws. -/
lemma processIps_eq (hshort : ∀ addrIP, (asio.to_string addrIP).length < 2 ^ 31) {naNodePublic : NewcoinAddress}
    (hversion : naNodePublic.nVersion = VER_NODE_PUBLIC) {pmtVecStrIps : Option (List Bytes)}
    (hquiet : ∀ s ∈ pmtVecStrIps.getD [], ¬ Throws asio s) (db : IpReferrals) :
    ∃ db', processIps env asio naNodePublic pmtVecStrIps db = (db', none) ∧
      db'.rows = db.rows.filter (fun r => r.Validator ≠ .blob (naNodePublic.ToString env)) ++
        ipRows asio (naNodePublic.ToString env) (pmtVecStrIps.getD []) := by
  unfold processIps
  rw [humanNodePublic_eq env hversion]
  dsimp only
  generalize hdb : db.delete _ = db₁
  have hrows : db₁.rows = db.rows.filter fun r => r.Validator ≠ .blob (naNodePublic.ToString env) := by
    rw [← hdb]
    exact rows_deleteIps db
  have hother : ∀ r ∈ db₁.rows, r.Validator ≠ .blob (naNodePublic.ToString env) := by
    intro r hr
    rw [hrows] at hr
    simpa using (List.mem_filter.1 hr).2
  generalize pmtVecStrIps.getD [] = ips at hquiet ⊢
  rw [← hrows]
  by_cases hnil : ips = []
  · subst hnil
    exact ⟨db₁, if_pos rfl, (List.append_nil _).symm⟩
  · obtain ⟨vstrValues, hrun, -, htake⟩ :=
      @processIpLines_eq Address asio (sqlEscape (naNodePublic.ToString env)) ips hquiet 0 (Nat.zero_le _) _
        (room_of_resize ips)
    rw [Nat.zero_add] at hrun htake
    rw [if_neg hnil, hrun, ← insertIps_eq hshort hother]
    dsimp only
    rw [resizeValues_collected htake]
    refine ⟨_, rfl, ?_⟩
    split_ifs with hzero
    · have hnodup : ((db₁.rows ++ []).map fun r : IpReferral => (r.Validator, r.Entry)).Nodup := by
        rw [List.append_nil]
        exact db₁.nodup
      rw [List.length_eq_zero_iff.1 hzero]
      exact ((Table.rows_insert hnodup).trans (List.append_nil _)).symm
    · rfl

/-- **`processIps`** replaces the rows of one validator by the first fifty lines that are accepted, and writes
inside the vector. -/
theorem processIps_replaces (hshort : ∀ addrIP, (asio.to_string addrIP).length < 2 ^ 31)
    {naNodePublic : NewcoinAddress} (hversion : naNodePublic.nVersion = VER_NODE_PUBLIC)
    {pmtVecStrIps : Option (List Bytes)} (hok : ∀ s ∈ pmtVecStrIps.getD [], ∃ r, parseIpPort asio s [] 0 = .ok r)
    (db : IpReferrals) :
    ∃ db', processIps env asio naNodePublic pmtVecStrIps db = (db', none) ∧
      db'.rows = db.rows.filter (fun r => r.Validator ≠ .blob (naNodePublic.ToString env)) ++
        ((endpoints asio (pmtVecStrIps.getD [])).take 50).mapIdx fun i e =>
          ⟨.blob (naNodePublic.ToString env), i, .blob e.1, .integer e.2⟩ := by
  refine processIps_eq hshort hversion (fun s hs hthrows => ?_) db
  obtain ⟨r, hr⟩ := hok s hs
  rw [parseIpPort_error_iff.2 hthrows] at hr
  cases hr

/-! ### Texts that throw -/

/-- **The new rows are written** unless a line throws before the limit is reached. -/
lemma processIps_none_iff {naNodePublic : NewcoinAddress} (hversion : naNodePublic.nVersion = VER_NODE_PUBLIC)
    (pmtVecStrIps : Option (List Bytes)) (db : IpReferrals) :
    (processIps env asio naNodePublic pmtVecStrIps db).2 = none ↔ ReadsOn asio 0 (pmtVecStrIps.getD []) := by
  unfold processIps
  rw [humanNodePublic_eq env hversion]
  dsimp only
  generalize pmtVecStrIps.getD [] = ips
  rw [← @processIpLines_ok_iff Address asio (sqlEscape (naNodePublic.ToString env)) ips 0 (Nat.zero_le _) _
    (room_of_resize ips)]
  by_cases hnil : ips = []
  · subst hnil
    exact iff_of_true rfl ⟨_, rfl⟩
  · rw [if_neg hnil]
    cases processIpLines asio (sqlEscape (naNodePublic.ToString env)) 0
        (resizeValues (min ips.length REFERRAL_IPS_MAX) []) ips with
    | error fault => exact iff_of_false (by simp) (by simp)
    | ok r => exact iff_of_true rfl ⟨r, rfl⟩

variable (env asio) in
/-- **Which texts are safe**: for `parseIpPort`, those whose port, behind an address that is accepted, is at most
65535; for the rows of `processIps`, those whose port is an `int`. -/
theorem hostile_text {naNodePublic : NewcoinAddress} (hversion : naNodePublic.nVersion = VER_NODE_PUBLIC)
    (pmtVecStrIps : Option (List Bytes)) (db : IpReferrals) :
    (∀ strSource strIP iPort, Safe asio strSource strIP iPort ↔
      ∀ word digits addrIP, reEndpoint strSource = some (word, digits) → asio.from_string word = some addrIP →
        portNumber digits ≤ 65535) ∧
    ((processIps env asio naNodePublic pmtVecStrIps db).2 = none ↔
      ∀ pre s post, pmtVecStrIps.getD [] = pre ++ s :: post → pre.countP (hasAddress asio) < 50 →
        ¬ ∃ word digits addrIP, reEndpoint s = some (word, digits) ∧ asio.from_string word = some addrIP ∧
          2 ^ 31 ≤ portNumber digits) := by
  refine ⟨fun strSource strIP iPort => safe_iff, ?_⟩
  rw [processIps_none_iff hversion, ReadsOn]
  simp only [Nat.zero_add]
  rfl

end

/-! ### A validator and its addresses -/

/-- The only address there is. -/
def oneAddress : Addresses Unit where
  from_string s := if s = cString "10.0.0.1" then some () else none
  to_string _ := cString "10.0.0.1"

/-- An old row of the validator. -/
def oldIps : IpReferrals :=
  ⟨[⟨.blob (referrer.ToString twoKeys), 0, .blob (cString "10.0.0.1"), .integer 6561⟩], List.nodup_singleton _⟩

/-- Of three lines one has an address, without a port. -/
theorem processIps_replaces_referrer :
    ∃ db', processIps twoKeys oneAddress referrer
        (some [cString "10.0.0.2", cString " 10.0.0.1", cString "10.0.0.1 http"]) oldIps = (db', none) ∧
      db'.rows = oldIps.rows.filter (fun r => r.Validator ≠ .blob (referrer.ToString twoKeys)) ++
        ((endpoints oneAddress [cString "10.0.0.2", cString " 10.0.0.1", cString "10.0.0.1 http"]).take 50).mapIdx
          fun i e => ⟨.blob (referrer.ToString twoKeys), i, .blob e.1, .integer e.2⟩ := by
  have hshort : (cString "10.0.0.1").length < 2 ^ 31 := by decide
  refine processIps_replaces (fun _ => hshort) rfl ?_ oldIps
  intro s hs
  simp only [Option.getD_some, List.mem_cons, List.not_mem_nil, or_false] at hs
  rcases hs with rfl | rfl | rfl
  · exact ⟨(false, [], 0), rfl⟩
  · exact ⟨(true, cString "10.0.0.1", -1), rfl⟩
  · exact ⟨(false, [], 0), rfl⟩

/-- A port of ten digits throws, one of five may be none, and the old row is gone. -/
theorem hostile_port :
    ¬ Safe oneAddress (cString "10.0.0.1 4294967296") [] 0 ∧ ¬ Safe oneAddress (cString "10.0.0.1 70000") [] 0 ∧
      processIps twoKeys oneAddress referrer (some [cString "10.0.0.1 4294967296"]) oldIps =
        (Table.empty, some .badLexicalCast) := by
  refine ⟨fun h => ?_, fun h => ?_, ?_⟩
  · exact absurd (safe_iff.1 h (cString "10.0.0.1") (cString "4294967296") () rfl rfl) (by decide)
  · exact absurd (safe_iff.1 h (cString "10.0.0.1") (cString "70000") () rfl rfl) (by decide)
  · have hloop : ∀ strEscNodePublic, processIpLines oneAddress strEscNodePublic 0 [none]
        [cString "10.0.0.1 4294967296"] = .error .badLexicalCast := fun _ => rfl
    unfold processIps
    rw [humanNodePublic_eq twoKeys rfl]
    dsimp only
    rw [if_neg (by decide), Option.getD_some]
    refine Prod.ext (Table.ext ?_) ?_
    · rw [show resizeValues _ [] = [none] from rfl, hloop, rows_deleteIps]
      simp [oldIps, Table.empty]
    · rw [show resizeValues _ [] = [none] from rfl, hloop]

/-- With the port left out the text is safe, and the new row is written. -/
theorem hostile_text_referrer :
    (∀ strSource strIP iPort, Safe oneAddress strSource strIP iPort ↔
      ∀ word digits addrIP, reEndpoint strSource = some (word, digits) → oneAddress.from_string word = some addrIP →
        portNumber digits ≤ 65535) ∧
    ((processIps twoKeys oneAddress referrer (some [cString "10.0.0.1"]) oldIps).2 = none ↔
      ∀ pre s post, (some [cString "10.0.0.1"]).getD [] = pre ++ s :: post →
        pre.countP (hasAddress oneAddress) < 50 →
        ¬ ∃ word digits addrIP, reEndpoint s = some (word, digits) ∧ oneAddress.from_string word = some addrIP ∧
          2 ^ 31 ≤ portNumber digits) :=
  hostile_text twoKeys oneAddress rfl (some [cString "10.0.0.1"]) oldIps

end Newcoin.UniqueNodeList
