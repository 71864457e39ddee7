import Sphinx.Script.VerifyScript
import Sphinx.Primitives.Inputs

/-!
# Signing

`Solver` of `standard.cpp` and the two ways in which `sign.cpp` signs an input: `SignSignature` writes the
signatures to a script, `ProduceSignature` collects them in a vector and pushes them at the end.  Both then
test what they have made with the `VerifyScript` of a checker.

The opcodes of a template are single bytes that push nothing, so a template is the list of its opcodes.
-/

namespace Sphinx

/-! ### Standard scripts -/

inductive Txnouttype
  | nonstandard
  | pubkey
  | pubkeyhash
  | scripthash
  | multisig
  | nullData
deriving DecidableEq, Repr

namespace CScript

/-- The opcodes that stand for data in a template. -/
def OP_SMALLDATA : Nat := 0xf9
def OP_SMALLINTEGER : Nat := 0xfa
def OP_PUBKEYS : Nat := 0xfb
def OP_PUBKEYHASH : Nat := 0xfd
def OP_PUBKEY : Nat := 0xfe

def MAX_OP_RETURN_RELAY : Nat := 40

/-- `mTemplates`, in the order of the multimap. -/
def mTemplates : List (Txnouttype × List Nat) :=
  [(.pubkey, [OP_PUBKEY, OP_CHECKSIG]),
    (.pubkeyhash, [OP_DUP, OP_HASH160, OP_PUBKEYHASH, OP_EQUALVERIFY, OP_CHECKSIG]),
    (.multisig, [OP_SMALLINTEGER, OP_PUBKEYS, OP_SMALLINTEGER, OP_CHECKMULTISIG]),
    (.nullData, [OP_RETURN, OP_SMALLDATA]),
    (.nullData, [OP_RETURN])]

/-- The sizes of the pushes that a template takes for public keys. -/
def isPubKeySize (vch : Valtype) : Bool := 33 ≤ vch.length && vch.length ≤ 120

/-- The loop at `OP_PUBKEYS`: the instructions of the size of a public key, and the first other one. -/
def takePubKeys : Nat → GetOpRet → List Valtype → GetOpRet × List Valtype
  | 0, r, vSolutions => (r, vSolutions)
  | fuel + 1, r, vSolutions =>
    if isPubKeySize r.vchRet then
      let r' := getOp2 r.pc
      if r'.ok then takePubKeys fuel r' (vSolutions ++ [r.vchRet]) else (r', vSolutions ++ [r.vchRet])
    else (r, vSolutions)

/-- The comparison of an instruction with an opcode of the template; `none` is a `break`. -/
def matchOpcode (r : GetOpRet) (opcode2 : Nat) (vSolutions : List Valtype) : Option (List Valtype) :=
  if opcode2 = OP_PUBKEY then
    if isPubKeySize r.vchRet then some (vSolutions ++ [r.vchRet]) else none
  else if opcode2 = OP_PUBKEYHASH then
    if r.vchRet.length = 20 then some (vSolutions ++ [r.vchRet]) else none
  else if opcode2 = OP_SMALLINTEGER then
    if r.opcodeRet = OP_0 ∨ (OP_1 ≤ r.opcodeRet ∧ r.opcodeRet ≤ OP_16) then
      some (vSolutions ++ [[UInt8.ofNat (decodeOpN r.opcodeRet)]])
    else none
  else if opcode2 = OP_SMALLDATA then
    if MAX_OP_RETURN_RELAY < r.vchRet.length then none else some vSolutions
  else if r.opcodeRet ≠ opcode2 ∨ r.vchRet ≠ [] then none
  else some vSolutions

/-- The loop that compares the bytes from `pc1` on with the rest of a template. -/
def matchTemplate : List Nat → CScript → List Valtype → Option (List Valtype)
  | [], pc1, vSolutions => if pc1.isEmpty then some vSolutions else none
  | opcode2 :: pc2, pc1, vSolutions =>
    let r := getOp2 pc1
    if !r.ok then none
    else if opcode2 = OP_PUBKEYS then
      let keys := takePubKeys pc1.length r vSolutions
      match pc2 with
      | [] => none
      | opcode2 :: pc2 =>
        (matchOpcode keys.1 opcode2 keys.2).bind fun vSolutions => matchTemplate pc2 keys.1.pc vSolutions
    else (matchOpcode r opcode2 vSolutions).bind fun vSolutions => matchTemplate pc2 r.pc vSolutions

/-- The additional checks for `TX_MULTISIG`. -/
def checkMultisig (vSolutions : List Valtype) : Bool :=
  let m := ((vSolutions.headD []).headD 0).toNat
  let n := ((vSolutions.getLastD []).headD 0).toNat
  !(m < 1 || n < 1 || n < m || vSolutions.length - 2 ≠ n)

/-- The scan of the templates. -/
def scanTemplates (scriptPubKey : CScript) :
    List (Txnouttype × List Nat) → Option (Txnouttype × List Valtype)
  | [] => none
  | (typeRet, script2) :: templates =>
    match matchTemplate script2 scriptPubKey [] with
    | none => scanTemplates scriptPubKey templates
    | some vSolutions =>
      if typeRet = .multisig && !checkMultisig vSolutions then none else some (typeRet, vSolutions)

/-- `Solver(scriptPubKey, typeRet, vSolutionsRet)`, if it returns true. -/
def solver (scriptPubKey : CScript) : Option (Txnouttype × List Valtype) :=
  if scriptPubKey.isPayToScriptHash then some (.scripthash, [(scriptPubKey.drop 2).take 20])
  else scanTemplates scriptPubKey mTemplates

end CScript

/-! ### Keys -/

/-- A private key: `GetPubKey`, and `Sign(hash, vchSig, test_case)` if it returns true. -/
structure CKey where
  pubKey : Valtype
  sign : Uint256 → Nat → Option Valtype

/-- Ids are the 20 bytes of a `uint160`. -/
structure CKeyStore where
  getKey : Valtype → Option CKey
  getPubKey : Valtype → Option Valtype
  getCScript : Valtype → Option CScript

/-- `CPubKey(vch).GetID()`. -/
def pubKeyID (crypto : ScriptCrypto) (vch : Valtype) : Valtype := crypto.hash .hash160 (pubKeyOfVch vch)

/-- `(unsigned char)nHashType`. -/
def hashTypeByte (nHashType : Int) : UInt8 := UInt8.ofNat (nHashType % 0x100).toNat

/-- The keys among the solutions of a multisig script. -/
def multisigKeys (multisigdata : List Valtype) : List Valtype := (multisigdata.drop 1).dropLast

/-- `multisigdata.front()[0]`. -/
def multisigRequired (multisigdata : List Valtype) : Nat := ((multisigdata.headD []).headD 0).toNat

/-! ### `SignSignature` -/

/-- `Sign1`: whether there is a signature, and the script it is written to. -/
def sign1 (keystore : CKeyStore) (address : Valtype) (hash : Uint256) (nHashType : Int)
    (scriptSigRet : CScript) : Bool × CScript :=
  match keystore.getKey address with
  | none => (false, scriptSigRet)
  | some key =>
    match key.sign hash 1 with
    | none => (false, scriptSigRet)
    | some vchSig => (true, scriptSigRet ++ CScript.pushVch (vchSig ++ [hashTypeByte nHashType]))

/-- The loop of `SignN`. -/
def signNLoop (crypto : ScriptCrypto) (keystore : CKeyStore) (hash : Uint256) (nHashType : Int)
    (nRequired : Nat) : List Valtype → Nat → CScript → Nat × CScript
  | [], nSigned, scriptSigRet => (nSigned, scriptSigRet)
  | pubkey :: keys, nSigned, scriptSigRet =>
    if nSigned < nRequired then
      let r := sign1 keystore (pubKeyID crypto pubkey) hash nHashType scriptSigRet
      signNLoop crypto keystore hash nHashType nRequired keys (if r.1 then nSigned + 1 else nSigned) r.2
    else (nSigned, scriptSigRet)

def signN (crypto : ScriptCrypto) (keystore : CKeyStore) (multisigdata : List Valtype) (hash : Uint256)
    (nHashType : Int) (scriptSigRet : CScript) : Bool × CScript :=
  let nRequired := multisigRequired multisigdata
  let r := signNLoop crypto keystore hash nHashType nRequired (multisigKeys multisigdata) 0 scriptSigRet
  (r.1 = nRequired, r.2)

/-- `Solver(keystore, scriptPubKey, hash, nHashType, scriptSigRet, whichTypeRet)`: its result, `scriptSigRet`
and `whichTypeRet`. -/
def solverSign (crypto : ScriptCrypto) (keystore : CKeyStore) (scriptPubKey : CScript) (hash : Uint256)
    (nHashType : Int) : Bool × CScript × Txnouttype :=
  match scriptPubKey.solver with
  | none => (false, [], .nonstandard)
  | some (whichType, vSolutions) =>
    match whichType with
    | .nonstandard => (false, [], whichType)
    | .nullData => (false, [], whichType)
    | .pubkey =>
      let r := sign1 keystore (pubKeyID crypto (vSolutions.headD [])) hash nHashType []
      (r.1, r.2, whichType)
    | .pubkeyhash =>
      let keyID := vSolutions.headD []
      let r := sign1 keystore keyID hash nHashType []
      if !r.1 then (false, r.2, whichType)
      else (true, r.2 ++ CScript.pushVch ((keystore.getPubKey keyID).getD []), whichType)
    | .scripthash =>
      match keystore.getCScript (vSolutions.headD []) with
      | none => (false, [], whichType)
      | some script => (true, script, whichType)
    | .multisig =>
      let r := signN crypto keystore vSolutions hash nHashType [UInt8.ofNat CScript.OP_0]
      (r.1, r.2, whichType)

/-- `txTo` with another script in the input `nIn`. -/
def CTransaction.setScriptSig (txTo : CTransaction) (nIn : Nat) (scriptSig : CScript) : CTransaction :=
  { txTo with vin := txTo.vin.mapIdx fun i txin => if i = nIn then { txin with scriptSig := scriptSig } else txin }

/-- `SignSignature(keystore, fromPubKey, txTo, nIn, nHashType)` for an input of `txTo`: its result and `txTo`. -/
def signSignature (crypto : ScriptCrypto) (keystore : CKeyStore) (fromPubKey : CScript)
    (txTo : CTransaction) (nIn : Nat) (nHashType : Int) : Bool × CTransaction :=
  let hash := signatureHash crypto fromPubKey txTo nIn nHashType
  let (fSolved, scriptSig, whichType) := solverSign crypto keystore fromPubKey hash nHashType
  let txTo := txTo.setScriptSig nIn scriptSig
  if !fSolved then (false, txTo)
  else if whichType = .scripthash then
    let subscript := scriptSig
    let hash2 := signatureHash crypto subscript txTo nIn nHashType
    let (fSolved, scriptSig, subType) := solverSign crypto keystore subscript hash2 nHashType
    let scriptSig := scriptSig ++ CScript.pushVch subscript
    let txTo := txTo.setScriptSig nIn scriptSig
    if !(fSolved && subType ≠ .scripthash) then (false, txTo)
    else (verifyScriptChecker crypto scriptSig fromPubKey standardScriptVerifyFlags
      (SignatureChecker.checkSig crypto txTo nIn), txTo)
  else (verifyScriptChecker crypto scriptSig fromPubKey standardScriptVerifyFlags
    (SignatureChecker.checkSig crypto txTo nIn), txTo)

/-! ### `ProduceSignature` -/

/-- `TransactionSignatureCreator(keystore, txTo, nIn, nHashType).CreateSig`. -/
def createSig (crypto : ScriptCrypto) (keystore : CKeyStore) (txTo : CTransaction) (nIn : Nat)
    (nHashType : Int) (address : Valtype) (scriptCode : CScript) : Option Valtype :=
  (keystore.getKey address).bind fun key =>
    (key.sign (signatureHash crypto scriptCode txTo nIn nHashType) 0).map fun vchSig =>
      vchSig ++ [hashTypeByte nHashType]

section Creator

variable (crypto : ScriptCrypto) (keystore : CKeyStore) (creator : Valtype → CScript → Option Valtype)

/-- `Sign1c`, with the new `ret`. -/
def sign1c (address : Valtype) (scriptCode : CScript) (ret : List Valtype) : Bool × List Valtype :=
  match creator address scriptCode with
  | none => (false, ret)
  | some vchSig => (true, ret ++ [vchSig])

/-- The loop of `SignNc`. -/
def signNcLoop (scriptCode : CScript) (nRequired : Nat) : List Valtype → Nat → List Valtype →
    Nat × List Valtype
  | [], nSigned, ret => (nSigned, ret)
  | pubkey :: keys, nSigned, ret =>
    if nSigned < nRequired then
      let r := sign1c creator (pubKeyID crypto pubkey) scriptCode ret
      signNcLoop scriptCode nRequired keys (if r.1 then nSigned + 1 else nSigned) r.2
    else (nSigned, ret)

def signNc (multisigdata : List Valtype) (scriptCode : CScript) (ret : List Valtype) :
    Bool × List Valtype :=
  let nRequired := multisigRequired multisigdata
  let r := signNcLoop crypto creator scriptCode nRequired (multisigKeys multisigdata) 0 ret
  (r.1 = nRequired, r.2)

/-- `SignStep`: its result, `ret` and `whichTypeRet`. -/
def signStep (scriptPubKey : CScript) : Bool × List Valtype × Txnouttype :=
  match scriptPubKey.solver with
  | none => (false, [], .nonstandard)
  | some (whichType, vSolutions) =>
    match whichType with
    | .nonstandard => (false, [], whichType)
    | .nullData => (false, [], whichType)
    | .pubkey =>
      let r := sign1c creator (pubKeyID crypto (vSolutions.headD [])) scriptPubKey []
      (r.1, r.2, whichType)
    | .pubkeyhash =>
      let keyID := vSolutions.headD []
      let r := sign1c creator keyID scriptPubKey []
      if !r.1 then (false, r.2, whichType)
      else (true, r.2 ++ [(keystore.getPubKey keyID).getD []], whichType)
    | .scripthash =>
      match keystore.getCScript (vSolutions.headD []) with
      | none => (false, [], whichType)
      | some script => (true, [script], whichType)
    | .multisig =>
      let r := signNc crypto creator vSolutions scriptPubKey [[]]
      (r.1, r.2, whichType)

end Creator

def pushAll (values : List Valtype) : CScript := values.flatMap CScript.pushVch

/-- `ProduceSignature` with a creator for a transaction: its result and `sigdata.scriptSig`. -/
def produceSignature (crypto : ScriptCrypto) (keystore : CKeyStore) (fromPubKey : CScript)
    (txTo : CTransaction) (nIn : Nat) (nHashType : Int) : Bool × CScript :=
  let creator := createSig crypto keystore txTo nIn nHashType
  let checker := SignatureChecker.checkSig crypto txTo nIn
  let (solved, result, whichType) := signStep crypto keystore creator fromPubKey
  if solved && whichType = .scripthash then
    let subscript := result.headD []
    let (solved, result, whichType) := signStep crypto keystore creator subscript
    let scriptSig := pushAll (result ++ [subscript])
    ((solved && whichType ≠ .scripthash) &&
      verifyScriptChecker crypto scriptSig fromPubKey standardScriptVerifyFlags checker, scriptSig)
  else
    let scriptSig := pushAll result
    (solved && verifyScriptChecker crypto scriptSig fromPubKey standardScriptVerifyFlags checker, scriptSig)

end Sphinx
