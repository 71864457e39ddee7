import Sphinx.Script.Interpreter
import Sphinx.Primitives.Serialize

/-!
# Verifying scripts

The two `VerifyScript` functions of `interpreter.cpp` with `EvalScript`, `CheckSig` and `SignatureHash`.
Blocks are judged by the one with a transaction and a hash type among its arguments (`verifyScript`), what the
wallet has signed by the one with a checker (`verifyScriptChecker`).

`signatureCache` holds only what `CPubKey::Verify` has answered with true, so it is left out.

A signature hash is the hash of `ss << txTmp << nHashType`, for the copy `txTmp` of the transaction that
`SignatureHash` edits (`signatureHash_eq`).
-/

namespace Sphinx

/-! ### Flags -/

/-- The positions of the `SCRIPT_VERIFY_` bits; `NOCACHE` and `P2SH` share one. -/
def SCRIPT_VERIFY_P2SH : Nat := 0
def SCRIPT_VERIFY_STRICTENC : Nat := 1
def SCRIPT_VERIFY_DERSIG : Nat := 2
def SCRIPT_VERIFY_LOW_S : Nat := 3
def SCRIPT_VERIFY_NULLDUMMY : Nat := 4
def SCRIPT_VERIFY_SIGPUSHONLY : Nat := 5
def SCRIPT_VERIFY_MINIMALDATA : Nat := 6
def SCRIPT_VERIFY_DISCOURAGE_UPGRADABLE_NOPS : Nat := 7

/-! ### Encodings -/

/-- `IsDERSignature`: `<30> <total len> <02> <len R> <R> <02> <len S> <S>` and, with `haveHashType`, the hash
type. -/
def isDERSignature (vchSig : Valtype) (haveHashType : Bool) : Bool :=
  let size := vchSig.length
  let b := fun i => (vchSig.getD i 0).toNat
  let nLenR := b 3
  let nLenS := b (5 + nLenR)
  if size < 9 then false
  else if 73 < size then false
  else if b 0 ≠ 0x30 then false
  else if b 1 ≠ size - (if haveHashType then 3 else 2) then false
  else if size ≤ 5 + nLenR then false
  else if nLenR + nLenS + (if haveHashType then 7 else 6) ≠ size then false
  else if b 2 ≠ 0x02 then false
  else if nLenR = 0 then false
  else if 0x80 ≤ b 4 then false
  else if 1 < nLenR ∧ b 4 = 0 ∧ b 5 < 0x80 then false
  else if b (4 + nLenR) ≠ 0x02 then false
  else if nLenS = 0 then false
  else if 0x80 ≤ b (6 + nLenR) then false
  else if 1 < nLenS ∧ b (6 + nLenR) = 0 ∧ b (7 + nLenR) < 0x80 then false
  else true

def isLowDERSignature (crypto : ScriptCrypto) (vchSig : Valtype) : Bool :=
  isDERSignature vchSig true && crypto.checkLowS vchSig.dropLast

/-- The last byte is `SIGHASH_ALL`, `SIGHASH_NONE` or `SIGHASH_SINGLE`, with or without
`SIGHASH_ANYONECANPAY`. -/
def isDefinedHashtypeSignature (vchSig : Valtype) : Bool :=
  match vchSig.getLast? with
  | none => false
  | some back => 1 ≤ back.toNat % 0x80 && back.toNat % 0x80 ≤ 3

def checkSignatureEncoding (crypto : ScriptCrypto) (vchSig : Valtype) : Bool :=
  isLowDERSignature crypto vchSig && isDefinedHashtypeSignature vchSig

/-- `IsCompressedOrUncompressedPubKey`. -/
def checkPubKeyEncoding (vchPubKey : Valtype) : Bool :=
  let header := vchPubKey.headD 0
  if vchPubKey.length < 33 then false
  else if header = 0x04 then vchPubKey.length = 65
  else if header = 0x02 ∨ header = 0x03 then vchPubKey.length = 33
  else false

/-- `CheckSignatureEncoding(vchSig, flags, serror)`. -/
def checkSignatureEncodingFlags (crypto : ScriptCrypto) (vchSig : Valtype) (flags : Nat) : Bool :=
  if (flags.testBit SCRIPT_VERIFY_DERSIG || flags.testBit SCRIPT_VERIFY_LOW_S ||
      flags.testBit SCRIPT_VERIFY_STRICTENC) && !isDERSignature vchSig true then false
  else if flags.testBit SCRIPT_VERIFY_LOW_S && !isLowDERSignature crypto vchSig then false
  else !(flags.testBit SCRIPT_VERIFY_STRICTENC && !isDefinedHashtypeSignature vchSig)

/-- `CheckPubKeyEncoding(vchPubKey, flags, serror)`. -/
def checkPubKeyEncodingFlags (vchPubKey : Valtype) (flags : Nat) : Bool :=
  !(flags.testBit SCRIPT_VERIFY_STRICTENC && !checkPubKeyEncoding vchPubKey)

def checkMinimalPush (data : Valtype) (opcode : Nat) : Bool :=
  let b := (data.headD 0).toNat
  if data.length = 0 then opcode = CScript.OP_0
  else if data.length = 1 ∧ 1 ≤ b ∧ b ≤ 16 then opcode = CScript.OP_1 + (b - 1)
  else if data.length = 1 ∧ b = 0x81 then opcode = CScript.OP_1NEGATE
  else if data.length ≤ 75 then opcode = data.length
  else if data.length ≤ 255 then opcode = CScript.OP_PUSHDATA1
  else if data.length ≤ 65535 then opcode = CScript.OP_PUSHDATA2
  else true

/-! ### Signatures -/

/-- `GetLen`: the size of a public key with this first byte. -/
def pubKeyLen (chHeader : UInt8) : Nat :=
  if chHeader = 2 ∨ chHeader = 3 then 33
  else if chHeader = 4 ∨ chHeader = 6 ∨ chHeader = 7 then 65
  else 0

/-- The bytes of `CPubKey(vch)`; an invalid key has none. -/
def pubKeyOfVch (vch : Valtype) : Valtype :=
  let len := match vch with
    | [] => 0
    | chHeader :: _ => pubKeyLen chHeader
  if len ≠ 0 ∧ len = vch.length then vch else []

/-- `CTxOut::SetNull`. -/
def CTxOut.null : CTxOut := { nValue := -1, scriptPubKey := [] }

def blankSequences (nIn : Nat) (vin : List CTxIn) : List CTxIn :=
  vin.mapIdx fun i txin => if i ≠ nIn then { txin with nSequence := 0 } else txin

section

variable (crypto : ScriptCrypto)

/-- `SignatureHash`.  The low five bits of the hash type say which outputs are hashed, the eighth is
`SIGHASH_ANYONECANPAY`. -/
def signatureHash (scriptCode : CScript) (txTo : CTransaction) (nIn : Nat)
    (nHashType : Int) : Uint256 :=
  let scriptCode := scriptCode.findAndDelete [UInt8.ofNat 0xab]
  let vin := txTo.vin.mapIdx fun i txin => { txin with scriptSig := if i = nIn then scriptCode else [] }
  let anyoneCanPay := fun (vin : List CTxIn) =>
    if nHashType / 0x80 % 2 = 1 then (vin.drop nIn).take 1 else vin
  if txTo.vin.length ≤ nIn then 1
  else if nHashType % 0x20 = 2 then
    crypto.hashTx { txTo with vin := anyoneCanPay (blankSequences nIn vin), vout := [] } nHashType
  else if nHashType % 0x20 = 3 then
    if txTo.vout.length ≤ nIn then 1
    else
      let vout := List.replicate nIn CTxOut.null ++ (txTo.vout.drop nIn).take 1
      crypto.hashTx { txTo with vin := anyoneCanPay (blankSequences nIn vin), vout := vout } nHashType
  else crypto.hashTx { txTo with vin := anyoneCanPay vin } nHashType

/-- `CheckSig(vchSig, vchPubKey, scriptCode, txTo, nIn, nHashType, flags)`: the hash type is the last byte of
the signature, and if `nHashType` is not 0 it must be the same. -/
def checkSig (vchSig vchPubKey : Valtype) (scriptCode : CScript)
    (txTo : CTransaction) (nIn : Nat) (nHashType : Int) : Bool :=
  let pubkey := pubKeyOfVch vchPubKey
  if pubkey.isEmpty then false
  else match vchSig.getLast? with
    | none => false
    | some back =>
      if nHashType ≠ 0 ∧ nHashType ≠ back.toNat then false
      else crypto.verify pubkey (signatureHash crypto scriptCode txTo nIn back.toNat) vchSig.dropLast

/-- `SignatureChecker(txTo, nIn).CheckSig`. -/
def SignatureChecker.checkSig (txTo : CTransaction) (nIn : Nat)
    (vchSig vchPubKey : Valtype) (scriptCode : CScript) : Bool :=
  let pubkey := pubKeyOfVch vchPubKey
  if pubkey.isEmpty then false
  else match vchSig.getLast? with
    | none => false
    | some back =>
      crypto.verify pubkey (signatureHash crypto scriptCode txTo nIn back.toNat) vchSig.dropLast

/-! ### The two interpreters -/

/-- `EvalScript(stack, script, txTo, nIn, flags, nHashType)`. -/
def evalRules (txTo : CTransaction) (nIn flags : Nat) (nHashType : Int) :
    EvalRules where
  crypto := crypto
  fRequireMinimal := flags.testBit SCRIPT_VERIFY_MINIMALDATA
  checkPush _ _ := true
  fDiscourageNops := flags.testBit SCRIPT_VERIFY_DISCOURAGE_UPGRADABLE_NOPS
  fNullDummy := flags.testBit SCRIPT_VERIFY_NULLDUMMY
  checkSig vchSig vchPubKey scriptCode := do
    failIf (flags.testBit SCRIPT_VERIFY_STRICTENC &&
      (!checkSignatureEncoding crypto vchSig || !checkPubKeyEncoding vchPubKey))
    return checkSignatureEncoding crypto vchSig && checkPubKeyEncoding vchPubKey &&
      checkSig crypto vchSig vchPubKey scriptCode txTo nIn nHashType

/-- `EvalScript(stack, script, flags, checker, serror)`. -/
def checkerRules (checker : Valtype → Valtype → CScript → Bool) (flags : Nat) :
    EvalRules where
  crypto := crypto
  fRequireMinimal := flags.testBit SCRIPT_VERIFY_MINIMALDATA
  checkPush vchPushValue opcode :=
    !(flags.testBit SCRIPT_VERIFY_MINIMALDATA && !checkMinimalPush vchPushValue opcode)
  fDiscourageNops := flags.testBit SCRIPT_VERIFY_DISCOURAGE_UPGRADABLE_NOPS
  fNullDummy := flags.testBit SCRIPT_VERIFY_NULLDUMMY
  checkSig vchSig vchPubKey scriptCode := do
    failIf (!checkSignatureEncodingFlags crypto vchSig flags || !checkPubKeyEncodingFlags vchPubKey flags)
    return checker vchSig vchPubKey scriptCode

end

/-- The end of both `VerifyScript` functions: the last element of the stack is true. -/
def checkTop (stack : List Valtype) : Except EvalStop Unit := do
  failIf stack.isEmpty
  let vch ← stacktop stack 1
  failIf (!castToBool vch)

/-- The evaluation of the script that a pay-to-script-hash input carries. -/
def evalP2SH (rules : EvalRules) (scriptSig : CScript) (stackCopy : List Valtype) : Except EvalStop Unit := do
  failIf (!scriptSig.isPushOnly)
  let pubKeySerialized ← stacktop stackCopy 1
  let stackCopy ← popstack stackCopy
  let stackCopy ← evalScript rules stackCopy pubKeySerialized
  checkTop stackCopy

/-- `VerifyScript(scriptSig, scriptPubKey, txTo, nIn, flags, nHashType)`; it returns true if there is a
value. -/
def verifyScriptRun (rules : EvalRules) (scriptSig scriptPubKey : CScript) : Except EvalStop Unit := do
  let stack ← evalScript rules [] scriptSig
  let stackCopy := stack
  let stack ← evalScript rules stack scriptPubKey
  checkTop stack
  if scriptPubKey.isPayToScriptHash then evalP2SH rules scriptSig stackCopy else return ()

def verifyScript (crypto : ScriptCrypto) (scriptSig scriptPubKey : CScript) (txTo : CTransaction)
    (nIn flags : Nat) (nHashType : Int) : Bool :=
  (verifyScriptRun (evalRules crypto txTo nIn flags nHashType) scriptSig scriptPubKey).isOk

/-- `VerifyScript(scriptSig, scriptPubKey, flags, checker, serror)`; it returns true if there is a value. -/
def verifyCheckerRun (rules : EvalRules) (flags : Nat) (scriptSig scriptPubKey : CScript) :
    Except EvalStop Unit := do
  failIf (flags.testBit SCRIPT_VERIFY_SIGPUSHONLY && !scriptSig.isPushOnly)
  let stack ← evalScript rules [] scriptSig
  let stackCopy := stack
  let stack ← evalScript rules stack scriptPubKey
  checkTop stack
  if flags.testBit SCRIPT_VERIFY_P2SH && scriptPubKey.isPayToScriptHash then
    evalP2SH rules scriptSig stackCopy
  else return ()

def verifyScriptChecker (crypto : ScriptCrypto) (scriptSig scriptPubKey : CScript) (flags : Nat)
    (checker : Valtype → Valtype → CScript → Bool) : Bool :=
  (verifyCheckerRun (checkerRules crypto checker flags) flags scriptSig scriptPubKey).isOk

/-! ### What a signature hash is the hash of -/

open Codec

/-- "Blank out other inputs' signatures". -/
def blankScripts (scriptCode : CScript) (nIn : Nat) (vin : List CTxIn) : List CTxIn :=
  vin.mapIdx fun i txin => { txin with scriptSig := if i = nIn then scriptCode else [] }

/-- `txTmp.vin`. -/
def hashedInputs (scriptCode : CScript) (nIn : Nat) (nHashType : Int) (vin : List CTxIn) : List CTxIn :=
  let vin := blankScripts (scriptCode.findAndDelete [UInt8.ofNat 0xab]) nIn vin
  let vin := if nHashType % 0x20 = 2 ∨ nHashType % 0x20 = 3 then blankSequences nIn vin else vin
  if nHashType / 0x80 % 2 = 1 then (vin.drop nIn).take 1 else vin

/-- `txTmp.vout`; `none` where `SignatureHash` returns 1. -/
def hashedOutputs (nIn : Nat) (nHashType : Int) (vout : List CTxOut) : Option (List CTxOut) :=
  if nHashType % 0x20 = 2 then some []
  else if nHashType % 0x20 = 3 then
    if vout.length ≤ nIn then none else some (List.replicate nIn CTxOut.null ++ (vout.drop nIn).take 1)
  else some vout

/-- `txTmp`; `none` where `SignatureHash` returns 1. -/
def signatureTx (scriptCode : CScript) (txTo : CTransaction) (nIn : Nat) (nHashType : Int) : Option CTransaction :=
  if txTo.vin.length ≤ nIn then none
  else (hashedOutputs nIn nHashType txTo.vout).map fun vout =>
    { txTo with vin := hashedInputs scriptCode nIn nHashType txTo.vin, vout := vout }

/-- The bytes that are hashed. -/
def signaturePreimage (scriptCode : CScript) (txTo : CTransaction) (nIn : Nat) (nHashType : Int) :
    Option (List UInt8) :=
  (signatureTx scriptCode txTo nIn nHashType).map fun txTmp => txTmp.write ++ writeInt 4 nHashType

theorem signatureHash_eq (crypto : ScriptCrypto) (scriptCode : CScript) (txTo : CTransaction) (nIn : Nat)
    (nHashType : Int) :
    signatureHash crypto scriptCode txTo nIn nHashType =
      (signatureTx scriptCode txTo nIn nHashType).elim 1 fun txTmp => crypto.hashTx txTmp nHashType := by
  unfold signatureHash signatureTx hashedOutputs hashedInputs blankScripts
  by_cases hin : txTo.vin.length ≤ nIn
  · rw [if_pos hin, if_pos hin]
    rfl
  rw [if_neg hin, if_neg hin]
  by_cases hnone : nHashType % 0x20 = 2
  · simp only [hnone, if_true, true_or, Option.map_some, Option.elim_some]
  · by_cases hsingle : nHashType % 0x20 = 3
    · by_cases hout : txTo.vout.length ≤ nIn
      · simp [hsingle, hout]
      · simp [hsingle, hout]
    · simp [hnone, hsingle]

end Sphinx
