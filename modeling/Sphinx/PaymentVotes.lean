import Sphinx.MasternodeMan
import Sphinx.SignedMessages
import Sphinx.Util.Loop

/-!
# Votes for payment winners

`masternode-payments.cpp`: the message `mnw` and `CMasternodePayments::AddWinningMasternode`.
`PaymentVotes` holds what they change.  Messages sent to peers are left out.

`hash1` is the hash of one 256-bit number, `hashHeight` that of a height.
-/

namespace Sphinx

/-- `CMasternodePaymentWinner::GetHash`: the distance of two hashes. -/
def CMasternodePaymentWinner.getHash (hashHeight : Int → Uint256) (winner : CMasternodePaymentWinner) :
    Uint256 :=
  let n2 := hashHeight winner.nBlockHeight
  if n2 < winner.vin.prevout.hash then winner.vin.prevout.hash - n2 else n2 - winner.vin.prevout.hash

structure PaymentVotes where
  mapCacheBlockHashes : StdMap Int Uint256 := ∅
  vWinning : List CMasternodePaymentWinner := []
  mapSeenMasternodeVotes : StdMap Uint256 CMasternodePaymentWinner := ∅

/-- The assignments to a winner that is listed already. -/
def CMasternodePaymentWinner.replaceBy (winner winnerIn : CMasternodePaymentWinner) :
    CMasternodePaymentWinner :=
  { winner with
    score := winnerIn.score, vin := winnerIn.vin, payee := winnerIn.payee, vchSig := winnerIn.vchSig }

/-- The loop of `AddWinningMasternode`: the first winner for the height with a lower score is
replaced. -/
def replaceWinner (winnerIn : CMasternodePaymentWinner) :
    List CMasternodePaymentWinner → Option (List CMasternodePaymentWinner)
  | [] => none
  | winner :: rest =>
    if winner.nBlockHeight = winnerIn.nBlockHeight ∧ winner.score < winnerIn.score then
      some (winner.replaceBy winnerIn :: rest)
    else (replaceWinner winnerIn rest).map (winner :: ·)

section

variable (signer : StashedSendSigner) (hash1 : Uint256 → Uint256) (hashHeight : Int → Uint256)

/-- `CMasternodePayments::CalculateScore`: the low 64 bits of the distance of two hashes. -/
def paymentScore (blockHash : Uint256) (vin : CTxIn) : Nat :=
  let n2 := hash1 blockHash
  let n3 := hash1 vin.prevout.hash
  (if n2 < n3 then n3 - n2 else n2 - n3) % 2 ^ 64

/-- `AddWinningMasternode`, with its result. -/
def addWinningMasternode (node : Node) (s : PaymentVotes) (winnerIn : CMasternodePaymentWinner) :
    Bool × PaymentVotes :=
  match getBlockHash node s.mapCacheBlockHashes (winnerIn.nBlockHeight - 576) with
  | (none, mapCacheBlockHashes) => (false, { s with mapCacheBlockHashes := mapCacheBlockHashes })
  | (some blockHash, mapCacheBlockHashes) =>
    let winnerIn := { winnerIn with score := paymentScore hash1 blockHash winnerIn.vin }
    let s := { s with mapCacheBlockHashes := mapCacheBlockHashes }
    let seen := MapLoop.insertNew winnerIn s.mapSeenMasternodeVotes (winnerIn.getHash hashHeight)
    match replaceWinner winnerIn s.vWinning with
    | some vWinning => (true, { s with vWinning := vWinning, mapSeenMasternodeVotes := seen })
    | none =>
      if s.vWinning.any fun winner => winner.nBlockHeight = winnerIn.nBlockHeight then (false, s)
      else (true, { s with vWinning := s.vWinning ++ [winnerIn], mapSeenMasternodeVotes := seen })

/-- `ProcessMessageMasternodePayments` with the message `mnw`.  An error is
`Misbehaving(pfrom->GetId(), nDoS)`, with the text that is logged. -/
def processWinner (fBlockchainSynced : Bool) (node : Node) (s : PaymentVotes)
    (winner : CMasternodePaymentWinner) : Except Reject PaymentVotes :=
  if !fBlockchainSynced then .ok s
  else
    match node.pindexBest.bind node.mapBlockIndex with
    | none => .ok s
    | some pindexBest =>
      let hash := winner.getHash hashHeight
      if (s.mapSeenMasternodeVotes.lookup hash).isSome then .ok s
      else if winner.nBlockHeight < (pindexBest.nHeight : Int) - 10 ∨
          (pindexBest.nHeight : Int) + 20 < winner.nBlockHeight then .ok s
      else if winner.vin.nSequence ≠ uintMax then dos 100 "mnw - invalid nSequence"
      else if !winner.checkSignature signer then dos 100 "mnw - invalid signature"
      else
        let s := { s with
          mapSeenMasternodeVotes := MapLoop.insertNew winner s.mapSeenMasternodeVotes hash }
        .ok (addWinningMasternode hash1 hashHeight node s winner).2

/-- The state after a message. -/
def PaymentVotes.receive (fBlockchainSynced : Bool) (node : Node) (s : PaymentVotes)
    (winner : CMasternodePaymentWinner) : PaymentVotes :=
  match processWinner signer hash1 hashHeight fBlockchainSynced node s winner with
  | .ok s' => s'
  | .error _ => s

end

end Sphinx
