import Sphinx.AddressGroupings

/-!
# Standard scripts

`Solver` with everything that it returns, `ExtractDestinations`, and the functions of `standard.cpp` that
make a script.

`ScriptSigArgsExpected` and `AreInputsStandard` of `policy.cpp`.
-/

namespace Sphinx

namespace CScript

/-! ### `Solver` -/

/-- What `Solver` returns and sets. -/
structure SolverRet where
  ok : Bool
  typeRet : Txnouttype
  vSolutionsRet : List Valtype
deriving DecidableEq, Repr

/-- The scan of the templates: a template that matches ends it, also if the additional checks fail. -/
def scanTemplatesRet (scriptPubKey : CScript) : List (Txnouttype × List Nat) → SolverRet
  | [] => ⟨false, .nonstandard, []⟩
  | (typeRet, script2) :: templates =>
    match matchTemplate script2 scriptPubKey [] with
    | none => scanTemplatesRet scriptPubKey templates
    | some vSolutionsRet =>
      if typeRet = .multisig && !checkMultisig vSolutionsRet then ⟨false, typeRet, vSolutionsRet⟩
      else ⟨true, typeRet, vSolutionsRet⟩

/-- `Solver(scriptPubKey, typeRet, vSolutionsRet)`, with the vector that it is called with. -/
def solverRet (scriptPubKey : CScript) (vSolutionsRet : List Valtype) : SolverRet :=
  if scriptPubKey.isPayToScriptHash then ⟨true, .scripthash, vSolutionsRet ++ [(scriptPubKey.drop 2).take 20]⟩
  else scanTemplatesRet scriptPubKey mTemplates

/-! ### Making a script -/

/-- `EncodeOP_N`, unless its assertion fails. -/
def encodeOpN (n : Int) : Option Nat :=
  if 0 ≤ n ∧ n ≤ 16 then some (if n = 0 then OP_0 else (OP_1 + n - 1).toNat) else none

end CScript

/-- `GetScriptForDestination`; for the other kinds of destination it is the empty script. -/
def getScriptForDestination : CTxDestination → CScript
  | .keyID id => [0x76, 0xa9, 0x14] ++ id ++ [0x88, 0xac]
  | .scriptID id => [0xa9, 0x14] ++ id ++ [0x87]

def getScriptForRawPubKey (pubKey : Valtype) : CScript := CScript.pushVch pubKey ++ [0xac]

/-- `GetScriptForMultisig`, unless an assertion fails. -/
def getScriptForMultisig (nRequired : Int) (keys : List Valtype) : Option CScript := do
  let opM ← CScript.encodeOpN nRequired
  let opN ← CScript.encodeOpN keys.length
  return UInt8.ofNat opM :: (keys.flatMap CScript.pushVch ++ [UInt8.ofNat opN, 0xae])

/-- `ExtractDestinations(scriptPubKey, typeRet, addressRet, nRequiredRet)`, if it returns true. -/
def extractDestinations (crypto : ScriptCrypto) (scriptPubKey : CScript) :
    Option (Txnouttype × List CTxDestination × Nat) :=
  let r := scriptPubKey.solverRet []
  if !r.ok then none
  else if r.typeRet = .nullData then none
  else if r.typeRet = .multisig then
    some (r.typeRet, (multisigKeys r.vSolutionsRet).map fun vch => .keyID (pubKeyID crypto vch),
      multisigRequired r.vSolutionsRet)
  else (extractDestination crypto scriptPubKey).map fun address => (r.typeRet, [address], 1)

/-! ### Standard inputs -/

open CScript

def MAX_P2SH_SIGOPS : Nat := 15

def SCRIPT_VERIFY_NONE : Nat := 0

def scriptSigArgsExpected (t : Txnouttype) (vSolutions : List Valtype) : Int :=
  match t with
  | .nonstandard => -1
  | .nullData => -1
  | .pubkey => 1
  | .pubkeyhash => 2
  | .multisig =>
    if vSolutions.length < 1 ∨ (vSolutions.headD []).length < 1 then -1
    else ((vSolutions.headD []).headD 0).toNat + 1
  | .scripthash => 1

variable (crypto : ScriptCrypto) (tx : CTransaction) (mapInputs : MapPrevTx)

/-- The end of a round: the items that the `scriptSig` has pushed are counted. -/
def checkArgs (stack : List Valtype) (nArgsExpected : Int) : Option Bool :=
  if (stack.length : Int) ≠ nArgsExpected then some false else none

/-- The part of a round for a pay-to-script-hash output. -/
def checkSubscript (stack : List Valtype) (nArgsExpected : Int) : Option Bool :=
  match stack with
  | [] => some false
  | subscript :: _ =>
    let r2 := solverRet subscript []
    if r2.ok then
      let tmpExpected := scriptSigArgsExpected r2.typeRet r2.vSolutionsRet
      if r2.typeRet = .scripthash then some false
      else if tmpExpected < 0 then some false
      else checkArgs stack (nArgsExpected + tmpExpected)
    else some (getSigOpCount subscript true ≤ MAX_P2SH_SIGOPS)

/-- One round of the loop: what it returns, or `none` if it goes on with the next input. -/
def checkInputStandard (i : Nat) (txin : CTxIn) : Except Reject (Option Bool) := do
  let prev ← getOutputFor mapInputs txin.prevout
  let r := prev.scriptPubKey.solverRet []
  if !r.ok then return some false
  else
    let nArgsExpected := scriptSigArgsExpected r.typeRet r.vSolutionsRet
    if nArgsExpected < 0 then return some false
    else match evalScript (evalRules crypto tx i SCRIPT_VERIFY_NONE 0) [] txin.scriptSig with
      | .error _ => return some false
      | .ok stack =>
        return if r.typeRet = .scripthash then checkSubscript stack nArgsExpected
          else checkArgs stack nArgsExpected

/-- The loop, from input `i` on. -/
def inputsStandardLoop : Nat → List CTxIn → Except Reject Bool
  | _, [] => .ok true
  | i, txin :: vin => do
    match ← checkInputStandard crypto tx mapInputs i txin with
    | some f => return f
    | none => inputsStandardLoop (i + 1) vin

/-- `AreInputsStandard`; the source throws when an output is not there. -/
def areInputsStandard : Except Reject Bool :=
  if tx.isCoinBase then .ok true else inputsStandardLoop crypto tx mapInputs 0 tx.vin

end Sphinx
