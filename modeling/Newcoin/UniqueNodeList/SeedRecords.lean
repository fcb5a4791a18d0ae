import Newcoin.AddressText
import Newcoin.BaseUInt.Hex
import Newcoin.UniqueNodeList.Seeds

/-!
# Seeds in the database

The records of seed domains and seed nodes, with the columns they are written to and read back from.  The
statements hold the columns as literals, and a literal that is none makes the statement fail.

* `setSeedDomains_eq`, `setSeedNodes_eq`: the row that is written.
* `readDomain_writtenRow`: what is read back of it.
* `getSeedDomains_eq`, `getSeedNodes_eq`: a lookup is a lookup by key.
* `refines_set`: the rows of domains give the records that `Seeds` keeps in their place.
-/

namespace Newcoin

open Lib.Sql

namespace UniqueNodeList.SeedRecords

open NewcoinAddress
open Seeds (iToSeconds ptFromSeconds)

/-! ### Records and rows -/

/-- Why a call does not return. -/
inductive Stop
  | assertion
  /-- `std::length_error`. -/
  | lengthError
  | fault (fault : Fault)
  deriving DecidableEq, Repr

def liftFault {α : Type} (x : Except Fault α) : Except Stop α := x.mapError .fault

/-- `seedNode`; `vsSource` by its character. -/
structure SeedNode where
  naPublicKey : NewcoinAddress
  vsSource : UInt8
  tpNext : Time
  tpScan : Time
  tpFetch : Time
  iSha256 : BaseUInt 256
  strComment : Bytes
  deriving DecidableEq

/-- `seedDomain`. -/
structure SeedDomain extends SeedNode where
  strDomain : Bytes
  deriving DecidableEq

/-- A row of `SeedNodes`. -/
structure SeedRow where
  PublicKey : Value
  Source : Value
  Next : Value
  Scan : Value
  Fetch : Value
  Sha256 : Value
  Comment : Value
  deriving DecidableEq, Repr

/-- A row of `SeedDomains`, which has a column more. -/
structure DomainRow extends SeedRow where
  Domain : Value
  deriving DecidableEq, Repr

abbrev SeedDomains := Table DomainRow.Domain

abbrev SeedNodes := Table SeedRow.PublicKey

/-! ### Reading -/

/-- `getInt`, of a column that holds numbers. -/
def getInt : Value → ℤ
  | .integer n => toInt n
  | _ => 0

/-- `getStr`: up to the first zero. -/
def getStr (v : Value) : Bytes := v.bytes.takeWhile (· ≠ 0)

variable (env : Crypto)

/-- What `getSeedDomains` and `getSeedNodes` read of a row; `strSource[0]` of an empty string is zero. -/
def readSeed (row : SeedRow) : SeedNode where
  naPublicKey := if row.PublicKey = .null then clear else (setNodePublic env (getStr row.PublicKey)).2
  vsSource := row.Source.bytes.headD 0
  tpNext := ptFromSeconds (getInt row.Next)
  tpScan := ptFromSeconds (getInt row.Scan)
  tpFetch := ptFromSeconds (getInt row.Fetch)
  iSha256 := if row.Sha256 = .null then BaseUInt.zero 256 else BaseUInt.SetHex 256 (getStr row.Sha256)
  strComment := row.Comment.bytes

def readDomain (row : DomainRow) : SeedDomain := { readSeed env row.toSeedRow with strDomain := row.Domain.bytes }

def getSeedDomains (strDomain : Bytes) (db : SeedDomains) : Option SeedDomain :=
  (literal (Database.escape strDomain)).bind fun Domain =>
    (db.select (·.Domain = Domain)).head?.map (readDomain env)

def getSeedNodes (naNodePublic : NewcoinAddress) (db : SeedNodes) : Except Stop (Option SeedNode) := do
  let strPublic ← liftFault (naNodePublic.humanNodePublic env)
  return (literal (quoted strPublic)).bind fun PublicKey =>
    (db.select (·.PublicKey = PublicKey)).head?.map (readSeed env)

/-! ### Writing -/

/-- The value of `NULL` or of a literal. -/
def sqlValue (s : Bytes) : Option Value := if s = cString "NULL" then some .null else literal s

/-- The columns of a statement that holds the key, the source and the comment like this. -/
def seedRow (strPublicKey strSource strComment : Bytes) (snSource : SeedNode) : Option SeedRow :=
  (sqlValue strPublicKey).bind fun PublicKey =>
    (sqlValue strSource).bind fun Source =>
      (sqlValue (quoted snSource.iSha256.GetHex)).bind fun Sha256 =>
        (sqlValue strComment).map fun Comment =>
          { PublicKey, Source, Sha256, Comment
            Next := .integer (toInt (iToSeconds snSource.tpNext))
            Scan := .integer (toInt (iToSeconds snSource.tpScan))
            Fetch := .integer (toInt (iToSeconds snSource.tpFetch)) }

/-- The literal of a domain's key. -/
def publicKeyLiteral (na : NewcoinAddress) : Except Stop Bytes :=
  if na.isValid env then Database.escape <$> liftFault (na.humanNodePublic env) else pure (cString "NULL")

/-- A record is written: the table after the statement. -/
def setSeedDomains (sdSource : SeedDomain) (db : SeedDomains) : Except Stop SeedDomains := do
  let strPublicKey ← publicKeyLiteral env sdSource.naPublicKey
  let strSource ← (sqlEscapeInt [sdSource.vsSource]).elim (throw .lengthError) pure
  let row : Option DomainRow :=
    (sqlValue (Database.escape sdSource.strDomain)).bind fun Domain =>
      (seedRow strPublicKey strSource (Database.escape sdSource.strComment) sdSource.toSeedNode).map fun row =>
        { row with Domain }
  return row.elim db fun row => db.replace row

def setSeedNodes (snSource : SeedNode) (db : SeedNodes) : Except Stop SeedNodes :=
  if ¬ snSource.naPublicKey.isValid env then throw .assertion
  else do
    let strPublic ← liftFault (snSource.naPublicKey.humanNodePublic env)
    let strComment ← (sqlEscapeInt snSource.strComment).elim (throw .lengthError) pure
    return (seedRow (quoted strPublic) (quoted [snSource.vsSource]) strComment snSource).elim db
      fun row => db.replace row

/-! ### What is written, and looked up -/

/-- The columns with these values, the comment written whole. -/
def writtenRow (PublicKey Source : Value) (sn : SeedNode) : SeedRow where
  PublicKey := PublicKey
  Source := Source
  Next := .integer (toInt (iToSeconds sn.tpNext))
  Scan := .integer (toInt (iToSeconds sn.tpScan))
  Fetch := .integer (toInt (iToSeconds sn.tpFetch))
  Sha256 := .text sn.iSha256.GetHex
  Comment := .blob sn.strComment

lemma sqlValue_eq {s : Bytes} {v : Value} (h : literal s = some v) : sqlValue s = some v := by
  have hnull : literal (cString "NULL") = none := by decide
  rw [sqlValue, if_neg, h]
  rintro rfl
  rw [hnull] at h
  cases h

lemma quote_notMem_strHex (s : Bytes) : 39 ∉ strHex s := fun h =>
  absurd (BaseUInt.hexDigit_of_mem h) (by decide)

lemma seedRow_eq {strPublicKey strSource strComment c : Bytes} {PublicKey Source : Value} {sn : SeedNode}
    (hkey : sqlValue strPublicKey = some PublicKey) (hsource : literal strSource = some Source)
    (hcomment : literal strComment = some (.blob c)) :
    seedRow strPublicKey strSource strComment sn =
      some (writtenRow PublicKey Source { sn with strComment := c }) := by
  have hsha : literal (quoted sn.iSha256.GetHex) = some (.text sn.iSha256.GetHex) :=
    literal_quoted (quote_notMem_strHex _)
  rw [seedRow, hkey, sqlValue_eq hsource, sqlValue_eq hsha, sqlValue_eq hcomment]
  rfl

/-- The source is written as its literal says. -/
lemma seedRow_source {strPublicKey strSource strComment : Bytes} {sn : SeedNode} {row : SeedRow}
    (h : seedRow strPublicKey strSource strComment sn = some row) : sqlValue strSource = some row.Source := by
  obtain ⟨PublicKey, -, h⟩ := Option.bind_eq_some_iff.1 h
  obtain ⟨Source, hsource, h⟩ := Option.bind_eq_some_iff.1 h
  obtain ⟨Sha256, -, h⟩ := Option.bind_eq_some_iff.1 h
  obtain ⟨Comment, -, rfl⟩ := Option.map_eq_some_iff.1 h
  exact hsource

variable {env}

/-- The column for a domain's key. -/
def keyColumn (env : Crypto) (na : NewcoinAddress) : Value :=
  if na.isValid env then .blob (na.ToString env) else .null

lemma publicKeyLiteral_eq {na : NewcoinAddress} (h : na.isValid env → na.nVersion = VER_NODE_PUBLIC) :
    ∃ strPublicKey PublicKey, publicKeyLiteral env na = .ok strPublicKey ∧ sqlValue strPublicKey = some PublicKey ∧
      ((na.isValid env = true → (na.ToString env).length < 2 ^ 31) → PublicKey = keyColumn env na) := by
  by_cases hvalid : na.isValid env = true
  · refine ⟨Database.escape (na.ToString env), _, ?_, sqlValue_eq (literal_escape _), fun hlen => ?_⟩
    · rw [publicKeyLiteral, if_pos hvalid, humanNodePublic_eq env (h hvalid)]
      rfl
    · rw [keyColumn, if_pos hvalid]
      exact Option.some.inj ((literal_escape _).symm.trans (literal_escape_iff.2 (hlen hvalid)))
  · refine ⟨cString "NULL", .null, ?_, rfl, fun _ => ?_⟩
    · exact if_neg hvalid
    · exact (if_neg hvalid).symm

/-- What `escape` leaves of the strings of a record. -/
def SeedDomain.cut (sd : SeedDomain) : SeedDomain :=
  { sd with strDomain := Database.cut sd.strDomain, strComment := Database.cut sd.strComment }

lemma SeedDomain.cut_eq_self {sd : SeedDomain} (hdomain : sd.strDomain.length < 2 ^ 31)
    (hcomment : sd.strComment.length < 2 ^ 31) : sd.cut = sd := by
  rw [cut, Database.cut_eq_self_iff.2 hdomain, Database.cut_eq_self_iff.2 hcomment]

/-- **A domain is written** under its name, with its source and its comment. -/
lemma setSeedDomains_cut {sd : SeedDomain}
    (hkey : sd.naPublicKey.isValid env → sd.naPublicKey.nVersion = VER_NODE_PUBLIC) (db : SeedDomains) :
    ∃ PublicKey, setSeedDomains env sd db =
        .ok (db.replace ⟨writtenRow PublicKey (.blob [sd.vsSource]) sd.cut.toSeedNode, .blob sd.cut.strDomain⟩) ∧
      ((sd.naPublicKey.isValid env = true → (sd.naPublicKey.ToString env).length < 2 ^ 31) →
        PublicKey = keyColumn env sd.naPublicKey) := by
  obtain ⟨strPublicKey, PublicKey, hpublic, hvalue, hcolumn⟩ := publicKeyLiteral_eq hkey
  have hrow := @seedRow_eq _ _ _ _ _ _ sd.toSeedNode hvalue (literal_sqlEscape [sd.vsSource])
    (literal_escape_cut sd.strComment)
  refine ⟨PublicKey, ?_, hcolumn⟩
  rw [setSeedDomains, hpublic, sqlEscapeInt_eq (by simp), sqlValue_eq (literal_escape_cut _)]
  simp only [bind, Except.bind, Option.elim_some, Option.bind_some, pure, Except.pure, hrow, Option.map_some,
    SeedDomain.cut]

/-- Strings whose size is an `int` are written whole. -/
lemma setSeedDomains_eq {sd : SeedDomain}
    (hkey : sd.naPublicKey.isValid env → sd.naPublicKey.nVersion = VER_NODE_PUBLIC)
    (hdomain : sd.strDomain.length < 2 ^ 31) (hcomment : sd.strComment.length < 2 ^ 31) (db : SeedDomains) :
    ∃ PublicKey, setSeedDomains env sd db =
        .ok (db.replace ⟨writtenRow PublicKey (.blob [sd.vsSource]) sd.toSeedNode, .blob sd.strDomain⟩) ∧
      ((sd.naPublicKey.isValid env = true → (sd.naPublicKey.ToString env).length < 2 ^ 31) →
        PublicKey = keyColumn env sd.naPublicKey) := by
  have hcut := setSeedDomains_cut hkey db
  rwa [SeedDomain.cut_eq_self hdomain hcomment] at hcut

/-- A node is written under its text. -/
lemma setSeedNodes_eq {sn : SeedNode} (hversion : sn.naPublicKey.nVersion = VER_NODE_PUBLIC)
    (hvalid : sn.naPublicKey.isValid env = true) (hsource : sn.vsSource ≠ 39) (hcomment : sn.strComment.length < 2 ^ 30)
    (db : SeedNodes) : setSeedNodes env sn db =
      .ok (db.replace (writtenRow (.text (sn.naPublicKey.ToString env)) (.text [sn.vsSource]) sn)) := by
  have hquote : 39 ∉ [sn.vsSource] := by simpa using hsource.symm
  have hrow := @seedRow_eq _ _ _ _ _ _ sn
    (sqlValue_eq (literal_quoted (quote_notMem_ToString env sn.naPublicKey))) (literal_quoted hquote)
    (literal_sqlEscape sn.strComment)
  rw [setSeedNodes, if_neg (not_not.2 hvalid), humanNodePublic_eq env hversion, sqlEscapeInt_eq hcomment]
  simp only [liftFault, Except.mapError, bind, Except.bind, Option.elim_some, pure, Except.pure, hrow]

lemma getSeedDomains_cut (strDomain : Bytes) (db : SeedDomains) :
    getSeedDomains env strDomain db = (db.find (.blob (Database.cut strDomain))).map (readDomain env) := by
  rw [getSeedDomains, literal_escape_cut, Option.bind_some, Table.head?_select_key]

lemma getSeedDomains_eq {strDomain : Bytes} (h : strDomain.length < 2 ^ 31) (db : SeedDomains) :
    getSeedDomains env strDomain db = (db.find (.blob strDomain)).map (readDomain env) := by
  rw [getSeedDomains_cut, Database.cut_eq_self_iff.2 h]

lemma getSeedNodes_eq {na : NewcoinAddress} (h : na.nVersion = VER_NODE_PUBLIC) (db : SeedNodes) :
    getSeedNodes env na db = .ok ((db.find (.text (na.ToString env))).map (readSeed env)) := by
  have hkey := literal_quoted (quote_notMem_ToString env na)
  rw [getSeedNodes, humanNodePublic_eq env h]
  simp only [liftFault, Except.mapError, bind, Except.bind, pure, Except.pure, hkey, Option.bind_some,
    Table.head?_select_key]

/-- The key that is read of a row is a node's, or none. -/
lemma readSeed_version (row : SeedRow) (h : (readSeed env row).naPublicKey.isValid env = true) :
    (readSeed env row).naPublicKey.nVersion = VER_NODE_PUBLIC := by
  unfold readSeed at h ⊢
  dsimp only at h ⊢
  split_ifs at h ⊢ with hnull
  · cases h
  · by_cases hgood : (setNodePublic env (getStr row.PublicKey)).1 = true
    · exact SetString_eq env hgood
    · have hclear : setNodePublic env (getStr row.PublicKey) = (false, clear) :=
        SetString_false env (Bool.eq_false_iff.2 hgood)
      rw [hclear] at h
      cases h

/-- The key of a node is read back. -/
lemma readSeed_key {na : NewcoinAddress} (h : na.nVersion = VER_NODE_PUBLIC) {row : SeedRow}
    (hnull : row.PublicKey ≠ .null) (hrow : row.PublicKey.bytes = na.ToString env) :
    (readSeed env row).naPublicKey = na := by
  have htext : getStr row.PublicKey = na.ToString env := by
    rw [getStr, hrow]
    refine List.takeWhile_eq_self_iff.2 fun c hc => ?_
    have hzero : (0 : UInt8) ∉ pszBase58 := by decide
    have hmem := mem_EncodeBase58 hc
    simpa using fun he : c = 0 => hzero (he ▸ hmem)
  have hset : setNodePublic env (na.ToString env) = (true, na) := by
    rw [setNodePublic, ← h]
    exact SetString_ToString env na
  unfold readSeed
  dsimp only
  rw [htext, hset, if_neg hnull]

lemma getInt_toInt {n : ℤ} (h : IsInt n) : getInt (.integer (toInt n)) = n := by
  have hn := toInt_eq h.1 h.2
  rw [getInt, hn, hn]

lemma getStr_GetHex (a : BaseUInt 256) : getStr (.text a.GetHex) = a.GetHex := by
  refine List.takeWhile_eq_self_iff.2 fun c hc => ?_
  have hzero : (hexDigit 0).isSome = false := by decide
  have hdigit := BaseUInt.hexDigit_of_mem hc
  simpa using fun he : c = 0 => absurd (he ▸ hdigit) (by simp [hzero])

/-- What is read back of a record: a key that is not valid is stored as `NULL`, and times as seconds. -/
def SeedDomain.stored (env : Crypto) (sd : SeedDomain) : SeedDomain :=
  { sd with
    naPublicKey := if sd.naPublicKey.isValid env then sd.naPublicKey else clear
    tpNext := ptFromSeconds (iToSeconds sd.tpNext)
    tpScan := ptFromSeconds (iToSeconds sd.tpScan)
    tpFetch := ptFromSeconds (iToSeconds sd.tpFetch) }

/-- **A row that is written is read back.** -/
lemma readDomain_writtenRow {sd : SeedDomain}
    (hkey : sd.naPublicKey.isValid env = true → sd.naPublicKey.nVersion = VER_NODE_PUBLIC)
    (hnext : IsInt (iToSeconds sd.tpNext)) (hscan : IsInt (iToSeconds sd.tpScan))
    (hfetch : IsInt (iToSeconds sd.tpFetch)) :
    readDomain env ⟨writtenRow (keyColumn env sd.naPublicKey) (.blob [sd.vsSource]) sd.toSeedNode,
      .blob sd.strDomain⟩ = sd.stored env := by
  have hpublic : (readSeed env (writtenRow (keyColumn env sd.naPublicKey) (.blob [sd.vsSource])
      sd.toSeedNode)).naPublicKey = if sd.naPublicKey.isValid env then sd.naPublicKey else clear := by
    by_cases hvalid : sd.naPublicKey.isValid env = true
    · have hcolumn : keyColumn env sd.naPublicKey = .blob (sd.naPublicKey.ToString env) := if_pos hvalid
      rw [if_pos hvalid, hcolumn]
      exact readSeed_key (hkey hvalid) (by simp [writtenRow]) rfl
    · have hcolumn : keyColumn env sd.naPublicKey = .null := if_neg hvalid
      rw [if_neg hvalid, hcolumn]
      rfl
  have hsha : (readSeed env (writtenRow (keyColumn env sd.naPublicKey) (.blob [sd.vsSource])
      sd.toSeedNode)).iSha256 = sd.iSha256 := by
    unfold readSeed writtenRow
    dsimp only
    rw [if_neg (by simp), getStr_GetHex, BaseUInt.SetHex_GetHex]
  unfold readDomain SeedDomain.stored
  rw [SeedDomain.mk.injEq, SeedNode.mk.injEq]
  refine ⟨⟨hpublic, rfl, ?_, ?_, ?_, hsha, rfl⟩, rfl⟩
  · exact congrArg ptFromSeconds (getInt_toInt hnext)
  · exact congrArg ptFromSeconds (getInt_toInt hscan)
  · exact congrArg ptFromSeconds (getInt_toInt hfetch)

/-! ### The records of `Seeds` -/

/-- A record that is kept as it is. -/
def ofRecord (r : Seeds.SeedDomain) : SeedDomain where
  naPublicKey := r.naPublicKey
  vsSource := r.vsSource.toChar
  tpNext := r.tpNext
  tpScan := r.tpScan
  tpFetch := r.tpFetch
  iSha256 := r.iSha256
  strComment := r.strComment
  strDomain := r.strDomain

/-- Strings whose size is an `int`, times whose seconds are, and no key but a node's. -/
structure Storable (env : Crypto) (r : Seeds.SeedDomain) : Prop where
  domain : r.strDomain.length < 2 ^ 31
  comment : r.strComment.length < 2 ^ 31
  key : r.naPublicKey.isValid env = true → r.naPublicKey.nVersion = VER_NODE_PUBLIC
  text : (r.naPublicKey.ToString env).length < 2 ^ 31
  next : IsInt (iToSeconds r.tpNext)
  scan : IsInt (iToSeconds r.tpScan)
  fetch : IsInt (iToSeconds r.tpFetch)

/-- The table of rows gives the records that the other table keeps. -/
def Refines (env : Crypto) (db : SeedDomains) (records : Seeds.SeedDomains) : Prop :=
  ∀ d : Bytes, d.length < 2 ^ 31 → getSeedDomains env d db = (Seeds.getSeedDomains d records).map ofRecord

lemma refines_empty : Refines env Table.empty Table.empty := by
  intro d hd
  rw [getSeedDomains_eq hd]
  rfl

/-- **Writing a row is keeping its record**, as `Seeds` has it. -/
theorem refines_set {db : SeedDomains} {records : Seeds.SeedDomains} {r : Seeds.SeedDomain}
    (h : Refines env db records) (hr : Storable env r) :
    ∃ db', setSeedDomains env (ofRecord r) db = .ok db' ∧
      Refines env db' (Seeds.replaceSeedDomain env r records) := by
  obtain ⟨PublicKey, hset, hcolumn⟩ := @setSeedDomains_eq env (ofRecord r) hr.key hr.domain hr.comment db
  obtain rfl := hcolumn fun _ => hr.text
  refine ⟨_, hset, fun d hd => ?_⟩
  dsimp only [ofRecord]
  have hrecords : Seeds.getSeedDomains d (Seeds.replaceSeedDomain env r records) =
      if r.strDomain = d then some (r.stored env) else Seeds.getSeedDomains d records := by
    unfold Seeds.getSeedDomains Seeds.replaceSeedDomain
    rw [Table.head?_select_key, Table.head?_select_key, Table.find_replace]
    rfl
  rw [getSeedDomains_eq hd, Table.find_replace, hrecords]
  by_cases hname : r.strDomain = d
  · rw [if_pos hname, if_pos (congrArg Value.blob hname), Option.map_some, Option.map_some]
    exact congrArg some (@readDomain_writtenRow env (ofRecord r) hr.key hr.next hr.scan hr.fetch)
  · rw [if_neg hname, if_neg fun he => hname (Value.blob.inj he), ← getSeedDomains_eq hd]
    exact h d hd

end UniqueNodeList.SeedRecords

end Newcoin
