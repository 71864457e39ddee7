import Sphinx.AddressGroupings
import Sphinx.Base58

/-!
# Addresses

`CBase58Data` and `CSphinxcoinAddress` of `base58.cpp`, with the prefixes of `chainparams.cpp`.
-/

namespace Sphinx

structure CBase58Data where
  vchVersion : List UInt8
  vchData : List UInt8
deriving DecidableEq

namespace CBase58Data

/-- `SetString`; `none` if it returns false. -/
def setString (hash : List UInt8 → Uint256) (str : List UInt8) (nVersionBytes : Nat) :
    Except Base58Fault (Option CBase58Data) :=
  (decodeBase58CheckStr hash str).map fun rc58 => rc58.bind fun vchTemp =>
    if vchTemp.length < nVersionBytes then none
    else some ⟨vchTemp.take nVersionBytes, vchTemp.drop nVersionBytes⟩

def toString (hash : List UInt8 → Uint256) (b58 : CBase58Data) : Except Base58Fault (List UInt8) :=
  encodeBase58Check hash (b58.vchVersion ++ b58.vchData)

end CBase58Data

def CTxDestination.id : CTxDestination → Valtype
  | .keyID id => id
  | .scriptID id => id

inductive Base58Type
  | pubkeyAddress | scriptAddress | secretKey | stealthAddress | extPublicKey | extSecretKey
deriving DecidableEq

/-- `Params().Base58Prefix`. -/
def base58Prefix (testNet : Bool) : Base58Type → List UInt8
  | .pubkeyAddress => [if testNet then 97 else 0x39]
  | .scriptAddress => [if testNet then 196 else 85]
  | .secretKey => [if testNet then 239 else 153]
  | .stealthAddress => [40]
  | .extPublicKey => if testNet then [0x04, 0x35, 0x87, 0xCF] else [0x04, 0x88, 0xB2, 0x1E]
  | .extSecretKey => if testNet then [0x04, 0x35, 0x83, 0x94] else [0x04, 0x88, 0xAD, 0xE4]

namespace CSphinxcoinAddress

variable (testNet : Bool)

def set : CTxDestination → CBase58Data
  | .keyID id => ⟨base58Prefix testNet .pubkeyAddress, id⟩
  | .scriptID id => ⟨base58Prefix testNet .scriptAddress, id⟩

def isValid (addr : CBase58Data) : Bool :=
  addr.vchData.length = 20 && (addr.vchVersion = base58Prefix testNet .pubkeyAddress ||
    addr.vchVersion = base58Prefix testNet .scriptAddress)

/-- `Get`; `none` is `CNoDestination`. -/
def get (addr : CBase58Data) : Option CTxDestination :=
  if !isValid testNet addr then none
  else if addr.vchVersion = base58Prefix testNet .pubkeyAddress then some (.keyID addr.vchData)
  else if addr.vchVersion = base58Prefix testNet .scriptAddress then some (.scriptID addr.vchData)
  else none

end CSphinxcoinAddress

end Sphinx
