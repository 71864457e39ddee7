import Sphinx.ConnectBlock

/-!
# The address index

`BuildAddrIndex`, which gives the ids of a script.  `ConnectBlock` puts the hash of a transaction under the ids of its
outputs and of the outputs of its previous transactions.
-/

namespace Sphinx

variable (hash160 : List UInt8 → Nat)

/-- The id of a data element: its bytes if there are no more than 20, else their hash. -/
def addrIdOf (data : List UInt8) : Nat := if data.length ≤ 20 then CScript.fromLE data else hash160 data

/-- The loop of `BuildAddrIndex`, which does not look at the result of `GetOp`; `none` if it did not end within `fuel`
rounds. -/
def buildAddrIndexLoop : Nat → CScript → List Nat → Bool → Option (List Nat × Bool)
  | _, [], addrIds, fHaveData => some (addrIds, fHaveData)
  | 0, _ :: _, _, _ => none
  | fuel + 1, op :: pc, addrIds, fHaveData =>
    let r := CScript.getOp2 (op :: pc)
    if r.opcodeRet ≤ CScript.OP_PUSHDATA4 && 8 ≤ r.vchRet.length then
      buildAddrIndexLoop fuel r.pc (addrIds ++ [addrIdOf hash160 r.vchRet]) true
    else buildAddrIndexLoop fuel r.pc addrIds fHaveData

/-- `BuildAddrIndex`: `addrIds`, if it returns true. -/
def buildAddrIndex (script : CScript) : Option (List Nat) := do
  let (addrIds, fHaveData) ← buildAddrIndexLoop hash160 script.length script [] false
  if !fHaveData then return addrIds ++ [hash160 script]
  else if 0 < addrIds.length then return addrIds
  else none

/-- The environment of a node with `-addrindex`. -/
def Env.withAddrIndex (env : Env) : Env :=
  { env with buildAddrIndex := Sphinx.buildAddrIndex hash160, fAddrIndex := true }

end Sphinx
