import Newcoin.Base58.Defs
import Newcoin.Rfc1751.Defs

/-!
# `NewcoinAddress`

The version and the bytes of an address; the calls on it that deal with family seeds, and those that
read and write its text form.
-/

namespace Newcoin

/-- The two members it has from `CBase58Data`. -/
structure NewcoinAddress where
  nVersion : UInt8
  vchData : Bytes
  deriving DecidableEq, Repr

namespace NewcoinAddress

def VER_NONE : UInt8 := 1

def VER_NODE_PUBLIC : UInt8 := 28

def VER_NODE_PRIVATE : UInt8 := 32

def VER_ACCOUNT_ID : UInt8 := 0

def VER_ACCOUNT_PUBLIC : UInt8 := 35

def VER_ACCOUNT_PRIVATE : UInt8 := 34

def VER_FAMILY_GENERATOR : UInt8 := 41

def VER_FAMILY_SEED : UInt8 := 33

/-- A new address, and one after `clear()`. -/
def clear : NewcoinAddress := ⟨VER_NONE, []⟩

/-- The `switch` on the version that precedes each getter. -/
def checkSource (na : NewcoinAddress) (version : UInt8) : Except Fault Unit :=
  if na.nVersion = VER_NONE then .error (.runtimeError "unset source")
  else if na.nVersion = version then .ok ()
  else .error (.runtimeError ("bad source: " ++ toString na.nVersion.toNat))

def getSeed (na : NewcoinAddress) : Except Fault (BaseUInt 128) := do
  na.checkSource VER_FAMILY_SEED
  return BaseUInt.ofBytes 128 na.vchData

/-- `setSeed(uint128)`: the address after the call. -/
def setSeed (hash128 : BaseUInt 128) : NewcoinAddress := ⟨VER_FAMILY_SEED, hash128.bytes⟩

def humanSeed1751 (m₁ m₂ : Rfc1751.Stale) (na : NewcoinAddress) : Except Fault Bytes := do
  na.checkSource VER_FAMILY_SEED
  let uSeed ← na.getSeed
  let strLittle := uSeed.bytes
  let strBig := strLittle.reverse
  Rfc1751.key2eng m₁ m₂ strBig

/-- `setSeed1751`: the code returned, and the address after the call. -/
def setSeed1751 (m₁ m₂ : Rfc1751.Stale) (na : NewcoinAddress) (strHuman1751 : Bytes) : ℤ × NewcoinAddress :=
  let result := Rfc1751.eng2key m₁ m₂ [] strHuman1751
  if result.1 = 1 then
    let vchLittle := result.2.reverse
    (result.1, setSeed (BaseUInt.ofBytes 128 vchLittle))
  else (result.1, na)

/-! ### Text -/

/-- What the calls below use of OpenSSL. -/
structure Crypto where
  /-- Double SHA-256. -/
  SHA256Hash : Bytes → BaseUInt 256
  /-- `CKey::PassPhraseToKey`. -/
  PassPhraseToKey : Bytes → BaseUInt 128
  /-- `CKey::SetPubKey`. -/
  SetPubKey : Bytes → Bool
  /-- `CKey::SetPrivateKeyU`. -/
  SetPrivateKeyU : BaseUInt 256 → Bool

variable (env : Crypto)

/-- `CBase58Data::SetString` of `str.c_str()`: what it returns, and the address after the call. -/
def SetString (str : Bytes) (version : UInt8) : Bool × NewcoinAddress :=
  match (DecodeBase58Check env.SHA256Hash str).2 with
  | [] => (false, clear)
  | v :: data => if v ≠ version then (false, clear) else (true, ⟨v, data⟩)

/-- `CBase58Data::ToString`. -/
def ToString (na : NewcoinAddress) : Bytes := EncodeBase58Check env.SHA256Hash (na.nVersion :: na.vchData)

def isValid (na : NewcoinAddress) : Bool :=
  if na.vchData = [] then false
  else if na.nVersion = VER_NODE_PUBLIC then env.SetPubKey na.vchData
  else if na.nVersion = VER_ACCOUNT_PUBLIC then env.SetPubKey na.vchData
  else if na.nVersion = VER_ACCOUNT_PRIVATE then env.SetPrivateKeyU (BaseUInt.ofBytes 256 na.vchData)
  else true

def humanNodePublic (na : NewcoinAddress) : Except Fault Bytes := do
  na.checkSource VER_NODE_PUBLIC
  return na.ToString env

def humanNodePrivate (na : NewcoinAddress) : Except Fault Bytes := do
  na.checkSource VER_NODE_PRIVATE
  return na.ToString env

def humanAccountPublic (na : NewcoinAddress) : Except Fault Bytes := do
  if na.nVersion = VER_ACCOUNT_ID then throw (.runtimeError "public not available from account id")
  na.checkSource VER_ACCOUNT_PUBLIC
  return na.ToString env

def humanAccountPrivate (na : NewcoinAddress) : Except Fault Bytes := do
  na.checkSource VER_ACCOUNT_PRIVATE
  return na.ToString env

def humanGenerator (na : NewcoinAddress) : Except Fault Bytes := do
  na.checkSource VER_FAMILY_GENERATOR
  return na.ToString env

def humanSeed (na : NewcoinAddress) : Except Fault Bytes := do
  na.checkSource VER_FAMILY_SEED
  return na.ToString env

/-- `getAccountID`; `Hash160` is RIPEMD-160 of SHA-256. -/
def getAccountID (Hash160 : Bytes → BaseUInt 160) (na : NewcoinAddress) : Except Fault (BaseUInt 160) :=
  if na.nVersion = VER_ACCOUNT_PUBLIC then .ok (Hash160 na.vchData)
  else do
    na.checkSource VER_ACCOUNT_ID
    return BaseUInt.ofBytes 160 na.vchData

/-- `setAccountID(const uint160&)`: the address after the call. -/
def setAccountID160 (hash160 : BaseUInt 160) : NewcoinAddress := ⟨VER_ACCOUNT_ID, hash160.bytes⟩

def humanAccountID (Hash160 : Bytes → BaseUInt 160) (na : NewcoinAddress) : Except Fault Bytes :=
  if na.nVersion = VER_ACCOUNT_PUBLIC then do
    let accountID := setAccountID160 (← na.getAccountID Hash160)
    return accountID.ToString env
  else do
    na.checkSource VER_ACCOUNT_ID
    return na.ToString env

def setNodePublic (strPublic : Bytes) : Bool × NewcoinAddress := SetString env strPublic VER_NODE_PUBLIC

def setNodePrivate (strPrivate : Bytes) : Bool × NewcoinAddress := SetString env strPrivate VER_NODE_PRIVATE

def setAccountID (strAccountID : Bytes) : Bool × NewcoinAddress := SetString env strAccountID VER_ACCOUNT_ID

def setAccountPublic (strPublic : Bytes) : Bool × NewcoinAddress := SetString env strPublic VER_ACCOUNT_PUBLIC

def setAccountPrivate (strPrivate : Bytes) : Bool × NewcoinAddress :=
  SetString env strPrivate VER_ACCOUNT_PRIVATE

def setGenerator (strGenerator : Bytes) : Bool × NewcoinAddress := SetString env strGenerator VER_FAMILY_GENERATOR

/-- `setSeed(const std::string&)`. -/
def setSeedText (strSeed : Bytes) : Bool × NewcoinAddress := SetString env strSeed VER_FAMILY_SEED

/-- `setSeedGeneric`: what it returns, and the address after the call. -/
def setSeedGeneric (m₁ m₂ : Rfc1751.Stale) (na : NewcoinAddress) (strText : Bytes) : Bool × NewcoinAddress :=
  if strText = [] ∨ (setAccountID env strText).1 ∨ (setAccountPublic env strText).1 ∨
      (setAccountPrivate env strText).1 ∨ (setNodePublic env strText).1 ∨ (setNodePrivate env strText).1 then
    (false, na)
  else if (setSeedText env strText).1 then (true, (setSeedText env strText).2)
  else
    let r := (setSeedText env strText).2.setSeed1751 m₁ m₂ strText
    if r.1 = 1 then (true, r.2) else (true, setSeed (env.PassPhraseToKey strText))

/-! ### Seeds read back -/

lemma checkSource_setSeed (hash128 : BaseUInt 128) :
    (setSeed hash128).checkSource VER_FAMILY_SEED = .ok () := by
  have hne : VER_FAMILY_SEED ≠ VER_NONE := by decide
  exact (if_neg hne).trans (if_pos rfl)

lemma getSeed_setSeed (hash128 : BaseUInt 128) : (setSeed hash128).getSeed = .ok hash128 := by
  rw [getSeed, checkSource_setSeed]
  exact congrArg Except.ok (BaseUInt.ofBytes_bytes hash128)

end NewcoinAddress

end Newcoin
