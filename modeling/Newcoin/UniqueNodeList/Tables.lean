import Newcoin.ConnectionPool.PeerIps
import Newcoin.Escape

/-!
# Tables of trust

The tables of the wallet database that scoring reads and writes, with the columns it uses, and the
sources a validator is known from.
-/

namespace Newcoin.UniqueNodeList

open Lib.Sql

/-! ### Sources -/

inductive ValidatorSource
  | vsConfig
  | vsInbound
  | vsManual
  | vsReferral
  | vsTold
  | vsValidator
  | vsWeb
  deriving DecidableEq, Repr

/-- `static_cast<validatorSource>`; `none` for a number that is no enumerator. -/
def ValidatorSource.ofChar (c : UInt8) : Option ValidatorSource :=
  if c = 67 then some .vsConfig
  else if c = 73 then some .vsInbound
  else if c = 77 then some .vsManual
  else if c = 82 then some .vsReferral
  else if c = 84 then some .vsTold
  else if c = 86 then some .vsValidator
  else if c = 87 then some .vsWeb
  else none

/-- `static_cast<char>`. -/
def ValidatorSource.toChar : ValidatorSource → UInt8
  | .vsConfig => 67
  | .vsInbound => 73
  | .vsManual => 77
  | .vsReferral => 82
  | .vsTold => 84
  | .vsValidator => 86
  | .vsWeb => 87

/-- `%s` of `boost::format` for an enumerator, which is printed as its number. -/
def ValidatorSource.formatS (vs : ValidatorSource) : Bytes := ConnectionPool.decimal vs.toChar.toNat

/-- `%c`, which is for one character: the first one. -/
def ValidatorSource.formatC (vs : ValidatorSource) : Bytes := vs.formatS.take 1

@[simp] lemma ValidatorSource.ofChar_toChar (vs : ValidatorSource) : ofChar vs.toChar = some vs := by
  cases vs <;> rfl

/-- For each kind of source, have a starting number of points to be distributed. -/
def iSourceScore : Option ValidatorSource → Except Fault ℤ
  | some .vsConfig => .ok 1500
  | some .vsInbound => .ok 0
  | some .vsManual => .ok 1500
  | some .vsReferral => .ok 0
  | some .vsTold => .ok 0
  | some .vsValidator => .ok 1000
  | some .vsWeb => .ok 200
  | none => .error (.runtimeError "Internal error: bad validatorSource.")

/-! ### Tables -/

/-- A row of `SeedDomains`. -/
structure SeedDomainRow where
  Domain : Value
  PublicKey : Value
  Source : Value
  deriving DecidableEq, Repr

/-- A row of `SeedNodes`. -/
structure SeedNodeRow where
  PublicKey : Value
  Source : Value
  deriving DecidableEq, Repr

/-- A row of `TrustedNodes`. -/
structure TrustedNode where
  PublicKey : Value
  Score : ℤ
  Seen : Option ℤ
  Comment : Value
  deriving DecidableEq, Repr

/-- A row of `ValidatorReferrals`. -/
structure ValidatorReferral where
  /-- Public key of referrer. -/
  Validator : Value
  /-- Entry index in `[validators]` table. -/
  Entry : ℤ
  /-- This is the form provided by the `newcoin.txt`. -/
  Referral : Value
  deriving DecidableEq, Repr

abbrev ValidatorReferrals := Table fun r : ValidatorReferral => (r.Validator, r.Entry)

/-- `SELECT Referral FROM ValidatorReferrals WHERE Validator=… ORDER BY Entry`, with the literal
`db->escape(strValidator)`: the rows. -/
def selectReferrals (db : ValidatorReferrals) (strValidator : Bytes) : List ValidatorReferral :=
  orderBy ValidatorReferral.Entry
    (db.select fun r => literal (SqliteDatabase.escape strValidator) = some r.Validator)

lemma selectReferrals_eq (db : ValidatorReferrals) (strValidator : Bytes) :
    selectReferrals db strValidator =
      orderBy ValidatorReferral.Entry (db.select fun r => r.Validator = .blob strValidator) := by
  rw [selectReferrals, literal_escape]
  simp only [Option.some_inj, eq_comm]

end Newcoin.UniqueNodeList
