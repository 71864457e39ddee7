import Sphinx.KeyPool
import Sphinx.Script.Sign
import Sphinx.Stealth

/-!
# Encrypted wallets

`CCrypter` and `CCryptoKeyStore`, the locks of `CWallet` and the keys of stealth payments: `Lock`, `Unlock`,
`ChangeWalletPassphrase`, `AddKey`, `UnlockStealthAddresses` and `FindStealthTransactions`.

The wallet is encrypted: `fUseCrypto` is true, and no function makes it false again, so `SetCrypted` succeeds and
`mapKeys` is empty.  The watch-only scripts, the address book and the metadata of the keys are left out; of the wallet
database, the records that are read again or not overwritten are kept.
-/

namespace Sphinx.Crypter

abbrev SecureString := List UInt8
abbrev CKeyingMaterial := List UInt8

/-- The curve and what OpenSSL, secp256k1 and the hash functions compute.  The last fields are assumed. -/
structure CryptoLib where
  ecgrp : EcGroup
  sha256 : List UInt8 → EcSecret
  /-- The bytes of `Hash`. -/
  hash : List UInt8 → List UInt8
  /-- `Hash160` -/
  hash160 : List UInt8 → CKeyID
  /-- `EVP_BytesToKey`: the key and the initialization vector for a passphrase, a salt and a number of rounds -/
  bytesToKey : SecureString → List UInt8 → Nat → List UInt8 × List UInt8
  /-- AES-256-CBC with a key and an initialization vector -/
  encrypt : List UInt8 → List UInt8 → CKeyingMaterial → List UInt8
  /-- It fails if the padding is wrong. -/
  decrypt : List UInt8 → List UInt8 → List UInt8 → Option CKeyingMaterial
  /-- `secp256k1_ec_pubkey_create` and `secp256k1_ec_pubkey_serialize`, for a compressed key or not -/
  pubKey : EcSecret → Bool → CPubKey
  length_hash : ∀ vch, (hash vch).length = 32
  decrypt_encrypt : ∀ chKey chIV vchPlaintext,
    decrypt chKey chIV (encrypt chKey chIV vchPlaintext) = some vchPlaintext
  decrypt_nil : ∀ chKey chIV, decrypt chKey chIV [] = none
  length_pubKey : ∀ secret fCompressed, (pubKey secret fCompressed).length = 33 ↔ fCompressed = true
  pubKey_ne_nil : ∀ secret fCompressed, pubKey secret fCompressed ≠ []
  pubKey_eq : ∀ {secret pk}, 0 < secret.bn → secret.bn < curveOrder → secretToPublicKey ecgrp secret = some pk →
    pubKey secret true = pk

/-! ### Keys -/

/-- `secp256k1_ec_seckey_verify`. -/
def seckeyVerify (vch : EcSecret) : Bool := 0 < vch.bn ∧ vch.bn < curveOrder

/-- A valid `CKey`. -/
structure CKey where
  vch : EcSecret
  fCompressed : Bool
  valid : seckeyVerify vch = true

/-- `CKey::Set`; `none` is an invalid key. -/
def CKey.set (vch : List UInt8) (fCompressedIn : Bool) : Option CKey :=
  if hlen : vch.length = ecSecretSize then
    if hvalid : seckeyVerify ⟨vch, hlen⟩ = true then some ⟨⟨vch, hlen⟩, fCompressedIn, hvalid⟩ else none
  else none

def isCompressed (vchPubKey : CPubKey) : Bool := vchPubKey.length = 33

variable (lib : CryptoLib)

/-- `GetPubKey`, of a valid key. -/
def CKey.getPubKey (key : CKey) : CPubKey := lib.pubKey key.vch key.fCompressed

/-- `GetID` of a public key. -/
def getID (vchPubKey : CPubKey) : CKeyID := lib.hash160 vchPubKey

/-- `ExtractDestination`, if the destination is a `CKeyID`. -/
def extractKeyID (scriptPubKey : CScript) : Option CKeyID :=
  match scriptPubKey.solver with
  | some (.pubkey, vSolutions) => some (getID lib (pubKeyOfVch (vSolutions.headD [])))
  | some (.pubkeyhash, vSolutions) => some (CScript.fromLE (vSolutions.headD []))
  | _ => none

/-! ### `CCrypter` -/

def WALLET_CRYPTO_KEY_SIZE : Nat := 32
def WALLET_CRYPTO_SALT_SIZE : Nat := 8

structure CMasterKey where
  vchCryptedKey : List UInt8
  vchSalt : List UInt8
  nDerivationMethod : Nat
  nDeriveIterations : Nat

/-- A `CCrypter` with `fKeySet`. -/
structure CCrypter where
  chKey : List UInt8
  chIV : List UInt8

namespace CCrypter

def setKeyFromPassphrase (strKeyData : SecureString) (chSalt : List UInt8) (nRounds nDerivationMethod : Nat) :
    Option CCrypter :=
  if nRounds < 1 ∨ chSalt.length ≠ WALLET_CRYPTO_SALT_SIZE then none
  else if nDerivationMethod = 0 then
    let (chKey, chIV) := lib.bytesToKey strKeyData chSalt nRounds
    some ⟨chKey, chIV⟩
  else none

def setKey (chNewKey : CKeyingMaterial) (chNewIV : List UInt8) : Option CCrypter :=
  if chNewKey.length ≠ WALLET_CRYPTO_KEY_SIZE ∨ chNewIV.length ≠ WALLET_CRYPTO_KEY_SIZE then none
  else some ⟨chNewKey, chNewIV⟩

def encrypt (crypter : CCrypter) (vchPlaintext : CKeyingMaterial) : List UInt8 :=
  lib.encrypt crypter.chKey crypter.chIV vchPlaintext

def decrypt (crypter : CCrypter) (vchCiphertext : List UInt8) : Option CKeyingMaterial :=
  lib.decrypt crypter.chKey crypter.chIV vchCiphertext

end CCrypter

/-- `SetKeyFromPassphrase` with the salt, the rounds and the method of a master key. -/
def CMasterKey.crypter (kMasterKey : CMasterKey) (strKeyData : SecureString) : Option CCrypter :=
  CCrypter.setKeyFromPassphrase lib strKeyData kMasterKey.vchSalt kMasterKey.nDeriveIterations
    kMasterKey.nDerivationMethod

def encryptSecret (vMasterKey vchPlaintext : CKeyingMaterial) (nIV : List UInt8) : Option (List UInt8) :=
  (CCrypter.setKey vMasterKey nIV).map fun crypter => crypter.encrypt lib vchPlaintext

def decryptSecret (vMasterKey : CKeyingMaterial) (vchCiphertext nIV : List UInt8) : Option CKeyingMaterial :=
  (CCrypter.setKey vMasterKey nIV).bind fun crypter => crypter.decrypt lib vchCiphertext

/-! ### `CCryptoKeyStore` -/

/-- The key store is locked if it has no master key. -/
structure CCryptoKeyStore where
  mapCryptedKeys : StdMap CKeyID (CPubKey × List UInt8) := ∅
  vMasterKey : CKeyingMaterial := []

namespace CCryptoKeyStore

variable (store : CCryptoKeyStore)

def isLocked : Bool := store.vMasterKey.isEmpty

def haveKey (address : CKeyID) : Bool := (store.mapCryptedKeys.lookup address).isSome

def getPubKey (address : CKeyID) : Option CPubKey := (store.mapCryptedKeys.lookup address).map Prod.fst

/-- `GetKey`, if it returns true; the key may be invalid. -/
def getKey (address : CKeyID) : Option (Option CKey) :=
  match store.mapCryptedKeys.lookup address with
  | none => none
  | some (vchPubKey, vchCryptedSecret) =>
    match decryptSecret lib store.vMasterKey vchCryptedSecret (lib.hash vchPubKey) with
    | none => none
    | some vchSecret =>
      if vchSecret.length ≠ 32 then none else some (CKey.set vchSecret (isCompressed vchPubKey))

/-- `*mapCryptedKeys.begin()`: the entry with the least id. -/
def firstEntry : Option (CPubKey × List UInt8) := store.mapCryptedKeys.keys.min?.bind store.mapCryptedKeys.lookup

/-- `Unlock`.  The master key is tried on the first entry; `none` is the failed assertion of `GetPubKey`. -/
def unlock (vMasterKeyIn : CKeyingMaterial) : Option (Bool × CCryptoKeyStore) :=
  match store.firstEntry with
  | none => some (true, { store with vMasterKey := vMasterKeyIn })
  | some (vchPubKey, vchCryptedSecret) =>
    match decryptSecret lib vMasterKeyIn vchCryptedSecret (lib.hash vchPubKey) with
    | none => some (false, store)
    | some vchSecret =>
      if vchSecret.length ≠ 32 then some (false, store)
      else match CKey.set vchSecret (isCompressed vchPubKey) with
        | none => none
        | some key =>
          if key.getPubKey lib = vchPubKey then some (true, { store with vMasterKey := vMasterKeyIn })
          else some (false, store)

def addCryptedKey (vchPubKey : CPubKey) (vchCryptedSecret : List UInt8) : CCryptoKeyStore :=
  { store with mapCryptedKeys := store.mapCryptedKeys.insert (getID lib vchPubKey) (vchPubKey, vchCryptedSecret) }

end CCryptoKeyStore

/-! ### `CWallet` -/

structure CStealthAddress where
  scan_pubkey : List UInt8
  spend_pubkey : List UInt8
  scan_secret : List UInt8 := []
  spend_secret : List UInt8 := []

structure CStealthKeyMetadata where
  pkEphem : CPubKey
  pkScan : CPubKey

structure CWallet extends CCryptoKeyStore where
  fFileBacked : Bool := true
  /-- In ascending order. -/
  mapMasterKeys : List (Nat × CMasterKey)
  /-- In the order of the set, that is by `scan_pubkey`. -/
  stealthAddresses : List CStealthAddress := []
  mapStealthKeyMeta : StdMap CKeyID CStealthKeyMetadata := ∅
  fWalletUnlockAnonymizeOnly : Bool := false
  /-- The records `ckey` of the wallet database. -/
  ckey : StdMap CPubKey (List UInt8) := ∅
  /-- The records `sxAddr`. -/
  sxAddr : StdMap (List UInt8) CStealthAddress := ∅

namespace CWallet

/-- `AddCryptedKey`.  The record of a key is not overwritten. -/
def addCryptedKey (w : CWallet) (vchPubKey : CPubKey) (vchCryptedSecret : List UInt8) : Bool × CWallet :=
  let w := { w with toCCryptoKeyStore := w.toCCryptoKeyStore.addCryptedKey lib vchPubKey vchCryptedSecret }
  if !w.fFileBacked then (true, w)
  else if (w.ckey.lookup vchPubKey).isSome then (false, w)
  else (true, { w with ckey := w.ckey.insert vchPubKey vchCryptedSecret })

/-- `AddKeyPubKey`, with the one of `CCryptoKeyStore`. -/
def addKeyPubKey (w : CWallet) (key : CKey) (pubkey : CPubKey) : Bool × CWallet :=
  if w.isLocked then (false, w)
  else match encryptSecret lib w.vMasterKey key.vch.e (lib.hash pubkey) with
    | none => (false, w)
    | some vchCryptedSecret => w.addCryptedKey lib pubkey vchCryptedSecret

def addKey (w : CWallet) (key : CKey) : Bool × CWallet := w.addKeyPubKey lib key (key.getPubKey lib)

/-- `Lock`, which always returns true.  The encrypted secrets of the stealth addresses are read again. -/
def lock (w : CWallet) : CWallet :=
  if w.isLocked then w
  else
    { w with
      stealthAddresses := w.stealthAddresses.map fun sxAddr =>
        if sxAddr.scan_secret.length < 32 then sxAddr
        else match w.sxAddr.lookup sxAddr.scan_pubkey with
          | none => sxAddr
          | some sxAddrTemp => { sxAddr with spend_secret := sxAddrTemp.spend_secret }
      vMasterKey := [] }

/-- The first loop of `UnlockStealthAddresses`. -/
def decryptSpendSecret (vMasterKeyIn : CKeyingMaterial) (sxAddr : CStealthAddress) : CStealthAddress :=
  if sxAddr.scan_secret.length < 32 then sxAddr
  else match decryptSecret lib vMasterKeyIn sxAddr.spend_secret (lib.hash sxAddr.spend_pubkey) with
    | none => sxAddr
    | some vchSecret =>
      if hlen : vchSecret.length = ecSecretSize then
        if secretToPublicKey lib.ecgrp ⟨vchSecret, hlen⟩ = some sxAddr.spend_pubkey then
          { sxAddr with spend_secret := vchSecret }
        else sxAddr
      else sxAddr

/-- The second loop, for the key id `ckid`.  The secret that `StealthSecretSpend` gives is valid. -/
def expandSecret (w : CWallet) (ckid : CKeyID) : CWallet :=
  match w.mapCryptedKeys.lookup ckid with
  | none => w
  | some (pubKey, vchCryptedSecret) =>
    if vchCryptedSecret.length ≠ 0 then w
    else match w.mapStealthKeyMeta.lookup (getID lib pubKey) with
      | none => w
      | some sxKeyMeta =>
        match w.stealthAddresses.find? fun sxAddr => sxAddr.scan_pubkey = sxKeyMeta.pkScan with
        | none => w
        | some si =>
          if hlen : si.spend_secret.length = ecSecretSize ∧ si.scan_secret.length = ecSecretSize then
            match stealthSecretSpend lib.ecgrp lib.sha256 ⟨si.scan_secret, hlen.2⟩ sxKeyMeta.pkEphem
                ⟨si.spend_secret, hlen.1⟩ with
            | none => w
            | some sSpendR =>
              if (secretToPublicKey lib.ecgrp sSpendR).isNone then w
              else match CKey.set sSpendR.e true with
                | none => w
                | some ckey =>
                  let cpkT := ckey.getPubKey lib
                  if !CPubKey.isValid cpkT then w
                  else if cpkT ≠ pubKey then w
                  else (w.addKey lib ckey).2
          else w

/-- `UnlockStealthAddresses`, which always returns true. -/
def unlockStealthAddresses (w : CWallet) (vMasterKeyIn : CKeyingMaterial) : CWallet :=
  let w := { w with stealthAddresses := w.stealthAddresses.map (decryptSpendSecret lib vMasterKeyIn) }
  (w.mapCryptedKeys.keys.insertionSort (· ≤ ·)).foldl (expandSecret lib) w

/-- `Unlock`: the result and the wallet.  Only the first master key is tried. -/
def unlock (w : CWallet) (strWalletPassphrase : SecureString) (anonymizeOnly : Bool) : Option (Bool × CWallet) :=
  if !w.isLocked then some (true, { w with fWalletUnlockAnonymizeOnly := anonymizeOnly })
  else match w.mapMasterKeys with
    | [] => some (true, { w with fWalletUnlockAnonymizeOnly := anonymizeOnly }.unlockStealthAddresses lib [])
    | (_, pMasterKey) :: _ =>
      match pMasterKey.crypter lib strWalletPassphrase with
      | none => some (false, w)
      | some crypter =>
        match crypter.decrypt lib pMasterKey.vchCryptedKey with
        | none => some (false, w)
        | some vMasterKey =>
          match w.toCCryptoKeyStore.unlock lib vMasterKey with
          | none => none
          | some (false, store) => some (false, { w with toCCryptoKeyStore := store })
          | some (true, store) =>
            let w := { w with toCCryptoKeyStore := store, fWalletUnlockAnonymizeOnly := anonymizeOnly }
            some (true, w.unlockStealthAddresses lib vMasterKey)

/-- The master key after the passphrase is changed; `nTimed` is `nDeriveIterations` as the clock makes it. -/
def recrypt (pMasterKey : CMasterKey) (vMasterKey : CKeyingMaterial) (strNewWalletPassphrase : SecureString)
    (nTimed : Nat) : Bool × CMasterKey :=
  let pMasterKey := { pMasterKey with nDeriveIterations := if nTimed < 25000 then 25000 else nTimed }
  match pMasterKey.crypter lib strNewWalletPassphrase with
  | none => (false, pMasterKey)
  | some crypter => (true, { pMasterKey with vchCryptedKey := crypter.encrypt lib vMasterKey })

/-- The loop of `ChangeWalletPassphrase`, after the master keys `done`. -/
def changeLoop (strOld strNew : SecureString) (nTimed : Nat) (fWasLocked : Bool) (w : CWallet) :
    List (Nat × CMasterKey) → List (Nat × CMasterKey) → Option (Bool × CWallet)
  | _, [] => some (false, w)
  | done, (nID, pMasterKey) :: rest =>
    match pMasterKey.crypter lib strOld with
    | none => some (false, w)
    | some crypter =>
      match crypter.decrypt lib pMasterKey.vchCryptedKey with
      | none => some (false, w)
      | some vMasterKey =>
        match w.toCCryptoKeyStore.unlock lib vMasterKey with
        | none => none
        | some (false, _) => changeLoop strOld strNew nTimed fWasLocked w (done ++ [(nID, pMasterKey)]) rest
        | some (true, store) =>
          let w := { w with toCCryptoKeyStore := store }.unlockStealthAddresses lib vMasterKey
          let (fOk, pMasterKey) := recrypt lib pMasterKey vMasterKey strNew nTimed
          let w := { w with mapMasterKeys := done ++ (nID, pMasterKey) :: rest }
          if !fOk then some (false, w) else some (true, if fWasLocked then w.lock else w)

def changeWalletPassphrase (w : CWallet) (strOldWalletPassphrase strNewWalletPassphrase : SecureString)
    (nTimed : Nat) : Option (Bool × CWallet) :=
  changeLoop lib strOldWalletPassphrase strNewWalletPassphrase nTimed w.isLocked w.lock [] w.lock.mapMasterKeys

/-! ### `FindStealthTransactions` -/

/-- What the loops change: the wallet, the iterator after the ephemeral key, and `mapNarr`, where `n` stands for the
key `n_%d`. -/
structure FindState where
  wallet : CWallet
  itTxA : CScript
  mapNarr : StdMap Int (List UInt8) := ∅

/-- The narration after an `OP_RETURN` at the iterator, and the iterator. -/
def getNarr (itTxA : CScript) : Option (List UInt8) × CScript :=
  let r := CScript.getOp2 itTxA
  if r.ok && r.opcodeRet = CScript.OP_RETURN then
    let r := CScript.getOp2 r.pc
    (if r.ok && 0 < r.vchRet.length then some r.vchRet else none, r.pc)
  else (none, r.pc)

/-- The wallet after a key was found for the stealth address `it`; `none` if the loop goes on. -/
def addStealthKey (w : CWallet) (vchEphemPK : List UInt8) (it : CStealthAddress) (sShared : EcSecret)
    (cpkE : CPubKey) : Bool × CWallet :=
  if w.isLocked then
    let w := (w.addCryptedKey lib cpkE []).2
    let lockedSkMeta : CStealthKeyMetadata :=
      { pkEphem := pubKeyOfVch vchEphemPK, pkScan := pubKeyOfVch it.scan_pubkey }
    (true, { w with mapStealthKeyMeta := w.mapStealthKeyMeta.insert (getID lib cpkE) lockedSkMeta })
  else if hlen : it.spend_secret.length = ecSecretSize then
    match stealthSharedToSecretSpend sShared ⟨it.spend_secret, hlen⟩ with
    | none => (false, w)
    | some sSpendR =>
      if (secretToPublicKey lib.ecgrp sSpendR).isNone then (false, w)
      else match CKey.set sSpendR.e true with
        | none => (false, w)
        | some ckey => if !CPubKey.isValid (ckey.getPubKey lib) then (false, w) else w.addKey lib ckey
  else (false, w)

/-- The narration of a payment that was found; false if it cannot be decrypted. -/
def addNarr (vchEphemPK : List UInt8) (nOutputId : Nat) (sShared : EcSecret) (st : FindState) : Bool × FindState :=
  let (vchENarr, itTxA) := getNarr st.itTxA
  match vchENarr with
  | none => (true, { st with itTxA := itTxA })
  | some vchENarr =>
    match lib.decrypt sShared.e (vchEphemPK.take 16) vchENarr with
    | none => (false, { st with itTxA := itTxA })
    | some vchNarr => (true, { st with itTxA := itTxA, mapNarr := st.mapNarr.insert nOutputId vchNarr })

/-- The loop over the stealth addresses; true is `txnMatch`. -/
def findAddress (vchEphemPK : List UInt8) (nOutputId : Nat) (ckidMatch : CKeyID) :
    List CStealthAddress → FindState → Bool × FindState
  | [], st => (false, st)
  | it :: rest, st =>
    if hlen : it.scan_secret.length = ecSecretSize then
      match stealthSecret lib.ecgrp lib.sha256 ⟨it.scan_secret, hlen⟩ vchEphemPK it.spend_pubkey with
      | none => findAddress vchEphemPK nOutputId ckidMatch rest st
      | some (sShared, pkExtracted) =>
        let cpkE := pubKeyOfVch pkExtracted
        if !CPubKey.isValid cpkE || ckidMatch ≠ getID lib cpkE then
          findAddress vchEphemPK nOutputId ckidMatch rest st
        else
          let (fAdded, w) := st.wallet.addStealthKey lib vchEphemPK it sShared cpkE
          let st := { st with wallet := w }
          if !fAdded then findAddress vchEphemPK nOutputId ckidMatch rest st
          else
            let (fNarr, st) := addNarr lib vchEphemPK nOutputId sShared st
            if fNarr then (true, st) else findAddress vchEphemPK nOutputId ckidMatch rest st
    else findAddress vchEphemPK nOutputId ckidMatch rest st

/-- The loop over the other outputs, from number `nOutputId` on. -/
def findOutput (vchEphemPK : List UInt8) (nOutputIdOuter : Nat) : Nat → List CTxOut → FindState → FindState
  | _, [], st => st
  | nOutputId, txoutB :: rest, st =>
    if nOutputId = nOutputIdOuter then findOutput vchEphemPK nOutputIdOuter (nOutputId + 1) rest st
    else match extractKeyID lib txoutB.scriptPubKey with
      | none => findOutput vchEphemPK nOutputIdOuter (nOutputId + 1) rest st
      | some ckidMatch =>
        if st.wallet.haveKey ckidMatch then findOutput vchEphemPK nOutputIdOuter (nOutputId + 1) rest st
        else
          let (txnMatch, st) := findAddress lib vchEphemPK nOutputId ckidMatch st.wallet.stealthAddresses st
          if txnMatch then st else findOutput vchEphemPK nOutputIdOuter (nOutputId + 1) rest st

/-- `(vchEphemPK, itTxA)` after the two `GetOp` of an output that begins with `OP_RETURN`. -/
def getEphemPK (scriptPubKey : CScript) : Option (List UInt8 × CScript) :=
  let r := CScript.getOp2 scriptPubKey
  if r.ok && r.opcodeRet = CScript.OP_RETURN then
    let r := CScript.getOp2 r.pc
    some (r.vchRet, r.pc)
  else none

/-- A round of the loop over the outputs. -/
def findTxOut (tx : CTransaction) (st : CWallet × StdMap Int (List UInt8)) (out : CTxOut × Nat) :
    CWallet × StdMap Int (List UInt8) :=
  let (txout, nOutputIdOuter) := out
  match getEphemPK txout.scriptPubKey with
  | none => st
  | some (vchEphemPK, itTxA) =>
    if vchEphemPK.length ≠ ecCompressedSize then
      -- a plain narration belongs to the output before
      if vchEphemPK.take 2 = [0x6e, 0x70] then
        match (getNarr itTxA).1 with
        | some vchENarr => (st.1, st.2.insert ((nOutputIdOuter : Int) - 1) vchENarr)
        | none => st
      else st
    else
      let st := findOutput lib vchEphemPK nOutputIdOuter 0 tx.vout { wallet := st.1, itTxA := itTxA, mapNarr := st.2 }
      (st.wallet, st.mapNarr)

/-- `FindStealthTransactions`: the wallet and `mapNarr`. -/
def findStealthTransactions (w : CWallet) (tx : CTransaction) : CWallet × StdMap Int (List UInt8) :=
  tx.vout.zipIdx.foldl (findTxOut lib tx) (w, ∅)

end CWallet

end Sphinx.Crypter
