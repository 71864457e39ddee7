import Sphinx.MasternodePayments

/-!
# Signed messages

What is signed of a spork (`spork.cpp`) and of a payment winner (`masternode-payments.cpp`): `Sign`
and `CheckSignature` print the fields one after the other and leave the rest to `stashedSendSigner`.

`spork.cpp`: `ProcessSpork` with the message `spork`, and `CSporkManager::UpdateSpork`.
`ExecuteSpork` is empty.  Messages sent to peers are left out.

`getHash` is `CSporkMessage::GetHash`, the hash of the memory from `nSporkID` to `nTimeSigned`.
-/

namespace Sphinx

/-- `stashedSendSigner` with the keys of `CSporkManager` or `CMasternodePayments`.  Signing needs the
private key; each message is checked with the public key that the program was built with. -/
structure StashedSendSigner where
  /-- `SetKey` and `SignMessage`; `none` when one of them fails. -/
  signMessage : List Char → Option (List UInt8)
  /-- `VerifyMessage` with the public key of `strMasterPrivKey`. -/
  verifyOwn : List UInt8 → List Char → Bool
  /-- `VerifyMessage` with `strMainPubKey`. -/
  verifyMain : List UInt8 → List Char → Bool

namespace StashedSendSigner

/-- The end of `Sign`: what was signed is verified. -/
def sign (signer : StashedSendSigner) (strMessage : List Char) : Option (List UInt8) := do
  let vchSig ← signer.signMessage strMessage
  if signer.verifyOwn vchSig strMessage then some vchSig else none

/-- A signature is good for no other text than the one it was issued for. -/
def Unforgeable (signer : StashedSendSigner) : Prop :=
  ∀ strMessage strMessage' vchSig, signer.signMessage strMessage = some vchSig →
    signer.verifyMain vchSig strMessage' = true → strMessage' = strMessage

end StashedSendSigner

/-! ### Sporks -/

structure CSporkMessage where
  nSporkID : Int
  nValue : CAmount
  nTimeSigned : Int
  vchSig : List UInt8 := []
deriving DecidableEq, Repr

namespace CSporkMessage

def strMessage (spork : CSporkMessage) : List Char :=
  Text.decimal spork.nSporkID ++ Text.decimal spork.nValue ++ Text.decimal spork.nTimeSigned

def checkSignature (signer : StashedSendSigner) (spork : CSporkMessage) : Bool :=
  signer.verifyMain spork.vchSig spork.strMessage

def sign (signer : StashedSendSigner) (spork : CSporkMessage) : Option CSporkMessage :=
  (signer.sign spork.strMessage).map fun vchSig => { spork with vchSig := vchSig }

end CSporkMessage

/-! ### Payment winners -/

namespace CMasternodePaymentWinner

def strMessage (winner : CMasternodePaymentWinner) : List Char :=
  winner.vin.toString ++ Text.decimal winner.nBlockHeight ++ winner.payee.toString

def checkSignature (signer : StashedSendSigner) (winner : CMasternodePaymentWinner) : Bool :=
  signer.verifyMain winner.vchSig winner.strMessage

def sign (signer : StashedSendSigner) (winner : CMasternodePaymentWinner) :
    Option CMasternodePaymentWinner :=
  (signer.sign winner.strMessage).map fun vchSig => { winner with vchSig := vchSig }

end CMasternodePaymentWinner

/-! ### Receiving a spork -/

/-- The maps of `spork.cpp`. -/
structure Sporks where
  mapSporks : StdMap Uint256 CSporkMessage := ∅
  mapSporksActive : StdMap Int CSporkMessage := ∅

section

variable (signer : StashedSendSigner) (getHash : CSporkMessage → Uint256)

/-- The end of `ProcessSpork` and of `UpdateSpork`. -/
def Sporks.setActive (sporks : Sporks) (spork : CSporkMessage) : Sporks where
  mapSporks := sporks.mapSporks.insert (getHash spork) spork
  mapSporksActive := sporks.mapSporksActive.insert spork.nSporkID spork

/-- `ProcessSpork` with the message `spork`.  An error is `Misbehaving(pfrom->GetId(), nDoS)`, with the
text that is logged.  `pindexBest` is only compared with the null pointer. -/
def processSpork (fLiteMode hasBest : Bool) (sporks : Sporks) (spork : CSporkMessage) :
    Except Reject Sporks :=
  if fLiteMode || !hasBest then .ok sporks
  else
    match sporks.mapSporksActive.lookup spork.nSporkID with
    | some active =>
      if spork.nTimeSigned ≤ active.nTimeSigned then .ok sporks
      else if !spork.checkSignature signer then dos 100 "spork - invalid signature"
      else .ok (sporks.setActive getHash spork)
    | none =>
      if !spork.checkSignature signer then dos 100 "spork - invalid signature"
      else .ok (sporks.setActive getHash spork)

/-- The sporks of a node with a chain after a message. -/
def Sporks.receive (sporks : Sporks) (spork : CSporkMessage) : Sporks :=
  match processSpork signer getHash false true sporks spork with
  | .ok sporks' => sporks'
  | .error _ => sporks

end

end Sphinx
