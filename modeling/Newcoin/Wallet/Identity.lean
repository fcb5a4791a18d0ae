import Newcoin.AddressKinds
import Newcoin.Escape

/-!
# The identity of the node

`Wallet::start` reads the key pair of the node from `NodeIdentity`, and makes and stores one if it finds none.
Statements may fail; the answer of the last one decides.  A `SELECT` that fails makes a second row, but the first
row is the one that is read.

* `start_of_stored`, `start_of_empty`: what one start does.
* `identity_stable`: every start that returns has the same identity, that of the first pair stored.
-/

namespace Newcoin.Wallet

open Lib.Sql NewcoinAddress

/-- A row of `NodeIdentity`, a table without a key: rows in the order of their `INSERT`s. -/
structure NodeIdentity where
  PublicKey : Value
  PrivateKey : Value
  Dh512 : Value
  Dh1024 : Value
  deriving DecidableEq, Repr

/-- What the calls use of OpenSSL. -/
structure Tools (DH : Type) extends Crypto where
  /-- `CKey(seed)`, and its `GetPubKey` and `GetPrivateKeyU`. -/
  CKey : BaseUInt 128 → Except Fault (Bytes × BaseUInt 256)
  DH_der_load : Bytes → DH

variable {DH : Type}

/-- The members that `start` sets. -/
structure Members (DH : Type) where
  mNodePublicKey : NewcoinAddress
  mNodePrivateKey : NewcoinAddress
  mDh512 : Option DH
  mDh1024 : Option DH

/-- The wallet as it is constructed. -/
def Members.init : Members DH := ⟨clear, clear, none, none⟩

/-- What a start meets: the seed and the parameters that are drawn, and which statements succeed. -/
structure Attempt where
  seed : BaseUInt 128
  strDh512 : Bytes
  selects : Bool
  inserts : Bool
  selectsAgain : Bool

variable (env : Tools DH)

/-- `createNodePublic(naSeed)`: `setNodePublic` of the key's bytes. -/
def createNodePublic (keys : Bytes × BaseUInt 256) : NewcoinAddress := ⟨VER_NODE_PUBLIC, keys.1⟩

/-- `createNodePrivate(naSeed)`: `setNodePrivate` of the number. -/
def createNodePrivate (keys : Bytes × BaseUInt 256) : NewcoinAddress := ⟨VER_NODE_PRIVATE, keys.2.bytes⟩

/-- `getStr`: up to the first zero. -/
def getStr (v : Value) : Bytes := v.bytes.takeWhile (· ≠ 0)

/-- `nodeIdentityLoad`: what it returns, and the members after it. -/
def nodeIdentityLoad (ok : Bool) (db : List NodeIdentity) (w : Members DH) : Bool × Members DH :=
  match db with
  | [] => (false, w)
  | row :: _ =>
    if ok then
      (true,
        { mNodePublicKey := (setNodePublic env.toCrypto (getStr row.PublicKey)).2
          mNodePrivateKey := (setNodePrivate env.toCrypto (getStr row.PrivateKey)).2
          mDh512 := some (env.DH_der_load row.Dh512.bytes)
          mDh1024 := some (env.DH_der_load row.Dh1024.bytes) })
    else (false, w)

/-- The row of the `INSERT` of `nodeIdentityCreate`: keys in quotes, parameters as blob literals. -/
def insertedRow (strPublic strPrivate strDh512 strDh1024 : Bytes) : Option NodeIdentity := do
  let PublicKey ← literal (quoted strPublic)
  let PrivateKey ← literal (quoted strPrivate)
  let Dh512 ← literal (sqlEscape strDh512)
  let Dh1024 ← literal (sqlEscape strDh1024)
  return { PublicKey, PrivateKey, Dh512, Dh1024 }

/-- `nodeIdentityCreate`: the table after it; `strDh1024` is `strDh512`. -/
def nodeIdentityCreate (a : Attempt) (db : List NodeIdentity) : Except Fault (List NodeIdentity) := do
  let seed ← (setSeed a.seed).getSeed
  let keys ← env.CKey seed
  let strPublic ← (createNodePublic keys).humanNodePublic env.toCrypto
  let strPrivate ← (createNodePrivate keys).humanNodePrivate env.toCrypto
  return (insertedRow strPublic strPrivate a.strDh512 a.strDh512).elim db fun row =>
    if a.inserts then db ++ [row] else db

/-- `start`, in a new program: how it ends, and the table after it. -/
def start (a : Attempt) (db : List NodeIdentity) : Except Fault (Members DH) × List NodeIdentity :=
  let loaded := nodeIdentityLoad env a.selects db Members.init
  if loaded.1 then
    -- the identity is printed, which throws for a text that was none
    (do let _ ← loaded.2.mNodePublicKey.humanNodePublic env.toCrypto
        return loaded.2, db)
  else
    match nodeIdentityCreate env a db with
    | .error e => (.error e, db)
    | .ok db =>
      let loaded := nodeIdentityLoad env a.selectsAgain db loaded.2
      if loaded.1 then
        (do let _ ← loaded.2.mNodePublicKey.humanNodePublic env.toCrypto
            return loaded.2, db)
      else (.error (.runtimeError "Unable to retrieve new node identity."), db)

/-- Starts in a row, on one database: how each ends, and the table after all. -/
def starts : List Attempt → List NodeIdentity → List (Except Fault (Members DH)) × List NodeIdentity
  | [], db => ([], db)
  | a :: rest, db =>
    let r := start env a db
    let s := starts rest r.2
    (r.1 :: s.1, s.2)

/-! ### One start -/

/-- The row that is stored for a pair. -/
def storedRow (keys : Bytes × BaseUInt 256) (strDh : Bytes) : NodeIdentity where
  PublicKey := .text ((createNodePublic keys).ToString env.toCrypto)
  PrivateKey := .text ((createNodePrivate keys).ToString env.toCrypto)
  Dh512 := .blob strDh
  Dh1024 := .blob strDh

/-- The identity of a pair. -/
def identity (keys : Bytes × BaseUInt 256) (strDh : Bytes) : Members DH where
  mNodePublicKey := createNodePublic keys
  mNodePrivateKey := createNodePrivate keys
  mDh512 := some (env.DH_der_load strDh)
  mDh1024 := some (env.DH_der_load strDh)

variable {env}

lemma getStr_ToString (na : NewcoinAddress) : getStr (.text (na.ToString env.toCrypto)) = na.ToString env.toCrypto := by
  apply List.takeWhile_eq_self_iff.2
  intro c hc
  rw [decide_eq_true_eq]
  rintro rfl
  exact absurd (mem_EncodeBase58 hc) (by decide)

/-- **A stored row is read back** as its identity. -/
lemma nodeIdentityLoad_stored {keys : Bytes × BaseUInt 256} {strDh : Bytes} (rest : List NodeIdentity)
    (w : Members DH) :
    nodeIdentityLoad env true (storedRow env keys strDh :: rest) w = (true, identity env keys strDh) := by
  have hpublic := SetString_ToString env.toCrypto (createNodePublic keys)
  have hprivate := SetString_ToString env.toCrypto (createNodePrivate keys)
  unfold nodeIdentityLoad storedRow identity
  simp only [getStr_ToString, if_true, setNodePublic, setNodePrivate]
  rw [show VER_NODE_PUBLIC = (createNodePublic keys).nVersion from rfl, hpublic,
    show VER_NODE_PRIVATE = (createNodePrivate keys).nVersion from rfl, hprivate]
  rfl

lemma humanNodePublic_identity (keys : Bytes × BaseUInt 256) (strDh : Bytes) :
    (do let _ ← (identity env keys strDh).mNodePublicKey.humanNodePublic env.toCrypto
        return identity env keys strDh) = Except.ok (identity env keys strDh) := by
  rw [humanNodePublic_eq env.toCrypto rfl]
  rfl

lemma insertedRow_eq (keys : Bytes × BaseUInt 256) (strDh : Bytes) :
    insertedRow ((createNodePublic keys).ToString env.toCrypto) ((createNodePrivate keys).ToString env.toCrypto)
      strDh strDh = some (storedRow env keys strDh) := by
  rw [insertedRow, literal_quoted (quote_notMem_ToString _ _), literal_quoted (quote_notMem_ToString _ _),
    literal_sqlEscape]
  rfl

/-- `nodeIdentityCreate` stores the pair of the seed, unless no pair is made or the `INSERT` fails. -/
lemma nodeIdentityCreate_eq (a : Attempt) (db : List NodeIdentity) : nodeIdentityCreate env a db =
    (env.CKey a.seed).map fun keys => if a.inserts then db ++ [storedRow env keys a.strDh512] else db := by
  have hseed : nodeIdentityCreate env a db = (env.CKey a.seed).bind fun keys =>
      .ok ((insertedRow ((createNodePublic keys).ToString env.toCrypto) ((createNodePrivate keys).ToString env.toCrypto)
        a.strDh512 a.strDh512).elim db fun row => if a.inserts then db ++ [row] else db) := by
    rw [nodeIdentityCreate, getSeed_setSeed]
    rfl
  rw [hseed]
  cases env.CKey a.seed with
  | error e => rfl
  | ok keys =>
    dsimp only [Except.bind, Except.map]
    rw [insertedRow_eq]
    rfl

/-- **A start that finds a pair** leaves it where it is, and has it, if it returns; if it can read, it does. -/
lemma start_of_stored (a : Attempt) (keys : Bytes × BaseUInt 256) (strDh : Bytes) (rest : List NodeIdentity) :
    (∃ more, (start env a (storedRow env keys strDh :: rest)).2 = storedRow env keys strDh :: (rest ++ more) ∧
      more.length ≤ if !a.selects then 1 else 0) ∧
    (∀ w, (start env a (storedRow env keys strDh :: rest)).1 = .ok w → w = identity env keys strDh) ∧
    (a.selects = true → (start env a (storedRow env keys strDh :: rest)).1 = .ok (identity env keys strDh)) := by
  unfold start
  cases hselects : a.selects with
  | true =>
    simp only [nodeIdentityLoad_stored, if_true, humanNodePublic_identity, Except.ok.injEq]
    exact ⟨⟨[], by simp, le_rfl⟩, fun w hw => hw.symm, fun _ => trivial⟩
  | false =>
    have hfailed : ∀ (row : NodeIdentity) (db : List NodeIdentity) (w : Members DH),
        nodeIdentityLoad env false (row :: db) w = (false, w) := fun _ _ _ => rfl
    simp only [hfailed, Bool.false_eq_true, if_false, nodeIdentityCreate_eq, false_imp_iff, and_true]
    cases env.CKey a.seed with
    | error e => exact ⟨⟨[], by simp [Except.map], Nat.zero_le 1⟩, fun w hw => nomatch hw⟩
    | ok keys' =>
      obtain ⟨more, hmore, hlen⟩ : ∃ more : List NodeIdentity,
          (if a.inserts then storedRow env keys strDh :: rest ++ [storedRow env keys' a.strDh512]
            else storedRow env keys strDh :: rest) = storedRow env keys strDh :: (rest ++ more) ∧ more.length ≤ 1 := by
        split
        · exact ⟨[_], rfl, le_rfl⟩
        · exact ⟨[], by simp, Nat.zero_le 1⟩
      simp only [Except.map, hmore]
      cases a.selectsAgain with
      | true =>
        simp only [nodeIdentityLoad_stored, if_true, humanNodePublic_identity, Except.ok.injEq]
        exact ⟨⟨more, rfl, hlen⟩, fun w hw => hw.symm⟩
      | false =>
        simp only [hfailed, Bool.false_eq_true, if_false]
        exact ⟨⟨more, rfl, hlen⟩, fun w hw => nomatch hw⟩

/-- **A start that finds nothing** does not return, or has stored the pair it has. -/
lemma start_of_empty (a : Attempt) :
    ((start env a []).2 = [] ∧ ∀ w, (start env a []).1 ≠ .ok w) ∨
      ∃ keys, env.CKey a.seed = .ok keys ∧ (start env a []).2 = [storedRow env keys a.strDh512] ∧
        ∀ w, (start env a []).1 = .ok w → w = identity env keys a.strDh512 := by
  have hempty : ∀ (ok : Bool) (w : Members DH), nodeIdentityLoad env ok [] w = (false, w) := fun _ _ => rfl
  unfold start
  simp only [hempty, Bool.false_eq_true, if_false, nodeIdentityCreate_eq]
  cases hkeys : env.CKey a.seed with
  | error e => exact .inl ⟨rfl, fun w hw => nomatch hw⟩
  | ok keys =>
    cases a.inserts with
    | false =>
      simp only [Except.map, Bool.false_eq_true, if_false, hempty]
      exact .inl ⟨trivial, fun w hw => nomatch hw⟩
    | true =>
      refine .inr ⟨keys, rfl, ?_⟩
      simp only [Except.map, if_true, List.nil_append]
      cases a.selectsAgain with
      | true =>
        simp only [nodeIdentityLoad_stored, if_true, humanNodePublic_identity, Except.ok.injEq]
        exact ⟨trivial, fun w hw => hw.symm⟩
      | false => exact ⟨rfl, fun w hw => nomatch hw⟩

/-! ### Many starts -/

/-- Once a pair is stored, it stays the first, and every start that returns has it. -/
lemma starts_of_stored (attempts : List Attempt) (keys : Bytes × BaseUInt 256) (strDh : Bytes)
    (rest : List NodeIdentity) :
    (∃ more, (starts env attempts (storedRow env keys strDh :: rest)).2 =
        storedRow env keys strDh :: (rest ++ more) ∧ more.length ≤ attempts.countP (!·.selects)) ∧
    ∀ w, .ok w ∈ (starts env attempts (storedRow env keys strDh :: rest)).1 → w = identity env keys strDh := by
  induction attempts generalizing rest with
  | nil => exact ⟨⟨[], by simp [starts], le_rfl⟩, fun w hw => nomatch hw⟩
  | cons a attempts ih =>
    obtain ⟨⟨more, htable, hmore⟩, hw, -⟩ := start_of_stored a keys strDh rest
    obtain ⟨⟨more', htable', hmore'⟩, hw'⟩ := ih (rest ++ more)
    rw [starts, htable]
    refine ⟨⟨more ++ more', ?_, ?_⟩, ?_⟩
    · rw [← List.append_assoc]
      exact htable'
    · rw [List.length_append, List.countP_cons, Nat.add_comm]
      exact Nat.add_le_add hmore' hmore
    · intro w hmem
      rcases List.mem_cons.1 hmem with hfirst | hlater
      · exact hw w hfirst.symm
      · exact hw' w hlater

/-- **The identity of a node is stable.**  Over any starts on a database without an identity, whatever is drawn and
whichever statements fail: all that return have one identity, the pair of one seed and its parameters; a start
that can read does return, once one is stored; and `NodeIdentity` grows past one row only where a `SELECT` failed. -/
theorem identity_stable (attempts : List Attempt) :
    (∀ w w', .ok w ∈ (starts env attempts []).1 → .ok w' ∈ (starts env attempts []).1 → w = w') ∧
    (∀ w, .ok w ∈ (starts env attempts []).1 → ∃ a ∈ attempts, ∃ keys, env.CKey a.seed = .ok keys ∧
      w = identity env keys a.strDh512) ∧
    (∀ w, .ok w ∈ (starts env attempts []).1 → ∀ a, a.selects = true →
      (start env a (starts env attempts []).2).1 = .ok w) ∧
    (starts env attempts []).2.length ≤ 1 + attempts.countP (!·.selects) := by
  induction attempts with
  | nil =>
    have hnone : ∀ w : Members DH, .ok w ∉ (starts env [] []).1 := fun w => List.not_mem_nil
    exact ⟨fun w w' hw => absurd hw (hnone w), fun w hw => absurd hw (hnone w), fun w hw => absurd hw (hnone w),
      Nat.zero_le _⟩
  | cons a attempts ih =>
    rcases @start_of_empty DH env a with ⟨htable, hnone⟩ | ⟨keys, hkeys, htable, hw⟩
    · -- nothing is stored, and the start does not return
      have hmem : ∀ w, .ok w ∈ (starts env (a :: attempts) []).1 ↔ .ok w ∈ (starts env attempts []).1 := by
        intro w
        rw [starts, htable, List.mem_cons]
        exact or_iff_right fun he => hnone w he.symm
      obtain ⟨hsame, hfrom, hreads, hlen⟩ := ih
      have hlast : (starts env (a :: attempts) []).2 = (starts env attempts []).2 := by
        rw [starts, htable]
      rw [hlast]
      simp only [hmem]
      refine ⟨hsame, fun w hw => ?_, hreads, ?_⟩
      · obtain ⟨b, hb, hpair⟩ := hfrom w hw
        exact ⟨b, List.mem_cons_of_mem _ hb, hpair⟩
      · rw [List.countP_cons]
        omega
    · -- from here on its pair is the first row
      obtain ⟨⟨more, htable', hmore⟩, hw'⟩ := @starts_of_stored DH env attempts keys a.strDh512 []
      have hall : ∀ w, .ok w ∈ (starts env (a :: attempts) []).1 → w = identity env keys a.strDh512 := by
        intro w hmem
        rw [starts, htable, List.mem_cons] at hmem
        rcases hmem with hfirst | hlater
        · exact hw w hfirst.symm
        · exact hw' w hlater
      refine ⟨fun w w' h h' => (hall w h).trans (hall w' h').symm, fun w h => ?_, fun w h b hb => ?_, ?_⟩
      · exact ⟨a, List.mem_cons_self, keys, hkeys, hall w h⟩
      · rw [starts, htable, htable', hall w h]
        exact (start_of_stored b keys a.strDh512 _).2.2 hb
      · rw [starts, htable, htable', List.countP_cons]
        simp only [List.length_cons, List.nil_append]
        omega

end Newcoin.Wallet
