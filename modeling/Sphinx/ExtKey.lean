import Sphinx.Crypter

/-!
# Extended keys

`CExtKey` and `CExtPubKey` of `key.cpp` and `pubkey.cpp`.  `none` is a `Derive` that returns false or one of
whose assertions fails.
-/

namespace Sphinx.Crypter

open BigEndian Codec

variable (lib : CryptoLib) (hmacSha512 : List UInt8 → List UInt8 → List UInt8)

/-- `BIP32Hash`. -/
def bip32Hash (chainCode : List UInt8) (nChild : UInt32) (header : UInt8) (data : List UInt8) : List UInt8 :=
  hmacSha512 chainCode (header :: data ++
    [(nChild >>> 24).toUInt8, (nChild >>> 16).toUInt8, (nChild >>> 8).toUInt8, nChild.toUInt8])

theorem bn_toLE {n : Nat} (h : n < curveOrder) : bin2bn (toLE 32 n).reverse = n := by
  rw [bin2bn, List.reverse_reverse, fromLE_toLE (h.trans (by decide))]

/-- The bytes of a secret. -/
def secretOf (n : Nat) (h : 0 < n ∧ n < curveOrder) : {vch : EcSecret // seckeyVerify vch = true} :=
  ⟨⟨(toLE 32 n).reverse, by simp⟩, by simpa [seckeyVerify, EcSecret.bn, bn_toLE h.2] using h⟩

/-- `secp256k1_ec_privkey_tweak_add`: it fails if the tweak is not below the order or the sum is zero. -/
def privkeyTweakAdd (vch : EcSecret) (tweak : List UInt8) : Option {vch : EcSecret // seckeyVerify vch = true} :=
  if h : curveOrder ≤ bin2bn tweak ∨ (vch.bn + bin2bn tweak) % curveOrder = 0 then none
  else some (secretOf _ ⟨Nat.pos_of_ne_zero (not_or.mp h).2, Nat.mod_lt _ (by decide)⟩)

/-- `secp256k1_ec_pubkey_tweak_add`, of a key that is parsed and serialized again. -/
def pubkeyTweakAdd (pubkey : CPubKey) (tweak : List UInt8) : Option CPubKey :=
  if curveOrder ≤ bin2bn tweak then none
  else (lib.ecgrp.oct2point pubkey).bind fun P => pointBytes lib.ecgrp (P + bin2bn tweak • lib.ecgrp.generator)

/-- `CKey::Derive`, with the child's chain code. -/
def CKey.derive (key : CKey) (nChild : UInt32) (cc : List UInt8) : Option (CKey × List UInt8) :=
  if key.fCompressed then
    let pubkey := key.getPubKey lib
    let out := if nChild >>> 31 = 0 then bip32Hash hmacSha512 cc nChild (pubkey.headD 0) pubkey.tail
      else bip32Hash hmacSha512 cc nChild 0 key.vch.e
    (privkeyTweakAdd key.vch (out.take 32)).map fun vch => (⟨vch.1, true, vch.2⟩, out.drop 32)
  else none

/-- `CPubKey::Derive`, with the child's chain code. -/
def CPubKey.derive (pubkey : CPubKey) (nChild : UInt32) (cc : List UInt8) : Option (CPubKey × List UInt8) :=
  if nChild >>> 31 = 0 ∧ pubkey.length = 33 then
    let out := bip32Hash hmacSha512 cc nChild (pubkey.headD 0) pubkey.tail
    (pubkeyTweakAdd lib pubkey (out.take 32)).map fun pubkeyChild => (pubkeyChild, out.drop 32)
  else none

structure CExtKey where
  nDepth : UInt8
  vchFingerprint : List UInt8
  nChild : UInt32
  vchChainCode : List UInt8
  key : CKey

structure CExtPubKey where
  nDepth : UInt8
  vchFingerprint : List UInt8
  nChild : UInt32
  vchChainCode : List UInt8
  pubkey : CPubKey

def CExtKey.derive (ext : CExtKey) (nChild : UInt32) : Option CExtKey :=
  (ext.key.derive lib hmacSha512 nChild ext.vchChainCode).map fun child =>
    ⟨ext.nDepth + 1, toLE 4 (getID lib (ext.key.getPubKey lib)), nChild, child.2, child.1⟩

def CExtPubKey.derive (ext : CExtPubKey) (nChild : UInt32) : Option CExtPubKey :=
  (CPubKey.derive lib hmacSha512 ext.pubkey nChild ext.vchChainCode).map fun child =>
    ⟨ext.nDepth + 1, toLE 4 (getID lib ext.pubkey), nChild, child.2, child.1⟩

def CExtKey.neuter (ext : CExtKey) : CExtPubKey :=
  ⟨ext.nDepth, ext.vchFingerprint, ext.nChild, ext.vchChainCode, ext.key.getPubKey lib⟩

end Sphinx.Crypter
