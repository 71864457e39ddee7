import Sphinx.Primitives.Transaction

/-!
# Masternode payments

The list of winning masternodes and the payee of a block, from `masternode-payments.cpp`, and the
share of a masternode, from `main.cpp`.
-/

namespace Sphinx

structure CMasternodePaymentWinner where
  nBlockHeight : Int
  vin : CTxIn
  payee : CScript
  vchSig : List UInt8 := []
  score : Nat := 0
deriving DecidableEq, Repr

/-- `GetBlockPayee`: the first winner listed for the height. -/
def getBlockPayee (vWinning : List CMasternodePaymentWinner) (nBlockHeight : Int) :
    Option (CScript × CTxIn) :=
  (vWinning.find? fun winner => winner.nBlockHeight = nBlockHeight).map fun winner =>
    (winner.payee, winner.vin)

/-- `GetMasternodePayment`: half of the block value. -/
def getMasternodePayment (_nHeight : Int) (blockValue : CAmount) : CAmount :=
  (blockValue * 1).tdiv 2

end Sphinx
