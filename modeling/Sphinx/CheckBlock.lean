import Sphinx.Primitives.Inputs

/-!
# Checking and accepting a block

`checkBlock` holds the checks that are made before a block is stored, and again when it is
connected; `acceptBlockChecks` holds the contextual checks of `AcceptBlock`, those that need the
parent's index entry.
-/

namespace Sphinx

def futureDrift (nTime : Int) : Int := nTime + 30

def LASTPOWBLOCK : Nat := 220

/-- The miner's coinbase reward. -/
def getCoinbaseValue (nHeight : Nat) (nFees : CAmount) : CAmount :=
  let nSubsidy : CAmount :=
    if 1 ≤ nHeight ∧ nHeight ≤ 5 then 10000 * coin
    else if 6 ≤ nHeight ∧ nHeight ≤ 10 then 100000 * coin
    else if 11 ≤ nHeight ∧ nHeight ≤ LASTPOWBLOCK then 2500 * coin
    else 0 * coin
  nSubsidy + nFees

/-- The miner's coinstake reward. -/
def getCoinstakeValue (_nCoinAge : Nat) (nFees : CAmount) (_nHeight : Nat) : CAmount :=
  10 * coin + nFees

/-! ### `CheckBlock` -/

/-- The transactions of a block the source reads without a bounds check; `CheckBlock` has made sure
that they are there. -/
def CBlock.tx (block : CBlock) (i : Nat) : CTransaction :=
  block.vtx.getD i { nTime := 0, vin := [], vout := [] }

/-- First transaction must be coinbase, the rest must not be; in a proof-of-stake block the
coinbase is empty, the second transaction is the coinstake and the rest are not. -/
def checkTxPositions (block : CBlock) : Except Reject Unit := do
  rejectIf (block.vtx.isEmpty || !(block.tx 0).isCoinBase) 100
    "CheckBlock() : first tx is not coinbase"
  rejectIf ((block.vtx.drop 1).any CTransaction.isCoinBase) 100
    "CheckBlock() : more than one coinbase"
  if block.isProofOfStake then do
    rejectIf ((block.tx 0).vout.length ≠ 1 || !(block.tx 0).vout.all CTxOut.isEmpty) 100
      "CheckBlock() : coinbase output not empty for proof-of-stake block"
    rejectIf (block.vtx.isEmpty || !(block.tx 1).isCoinStake) 100
      "CheckBlock() : second tx is not coinstake"
    rejectIf ((block.vtx.drop 2).any CTransaction.isCoinStake) 100
      "CheckBlock() : more than one coinstake"
  else .ok ()

/-- The InstantX scanning: a transaction that is not the coinbase must not spend an outpoint locked
for another transaction. -/
def hasLockConflict (env : Env) (ctx : Ctx) (block : CBlock) : Bool :=
  block.vtx.any fun tx => !tx.isCoinBase && tx.prevouts.any fun o =>
    match ctx.mapLockedInputs o with
    | none => false
    | some h => h ≠ env.getHash tx

/-- The masternode payment check, `foundPaymentAndPayee`, for a block on top of `pindexBest`. -/
def foundPaymentAndPayee (ctx : Ctx) (pindexBest : CBlockIndex) (block : CBlock) : Bool :=
  let vout := (block.tx 1).vout
  -- the amount looked for is the value of the last output of the coinstake itself
  let masternodePaymentAmount := (vout.getLastD ⟨0, [], 0⟩).nValue
  match getBlockPayee ctx.vWinning (pindexBest.nHeight + 1) with
  | none => true
  | some (payee, _) =>
    payee = [] || vout.any fun txout =>
      txout.nValue = masternodePaymentAmount && txout.scriptPubKey = payee

def checkMasternodePayment (ctx : Ctx) (pindexBest : Option CBlockIndex) (block : CBlock) :
    Except Reject Unit :=
  match pindexBest with
  | none => .ok ()
  | some pindexBest =>
    rejectIf (!ctx.fInitialDownload && block.isProofOfStake &&
      pindexBest.hashBlock = block.hashPrevBlock && !foundPaymentAndPayee ctx pindexBest block) 100
      "CheckBlock() : Couldn't find masternode payment or payee"

/-- The checks of one transaction of the block. -/
def checkBlockTx (block : CBlock) (tx : CTransaction) : Except Reject Unit := do
  match tx.checkTransaction with
  | .error r => dos r.nDoS "CheckBlock() : CheckTransaction failed"
  | .ok () =>
    rejectIf (block.getBlockTime < tx.nTime) 50
      "CheckBlock() : block timestamp earlier than transaction timestamp"

def checkBlock (env : Env) (ctx : Ctx) (pindexBest : Option CBlockIndex) (block : CBlock)
    (fCheckPOW fCheckMerkleRoot fCheckSig : Bool) : Except Reject Unit := do
  rejectIf (block.vtx.isEmpty || maxBlockSize < block.vtx.length ||
    maxBlockSize < block.getSerializeSize) 100 "CheckBlock() : size limits failed"
  rejectIf (fCheckPOW && block.isProofOfWork &&
    !env.checkProofOfWork (env.getPoWHash block) block.nBits) 50
    "CheckBlock() : proof of work failed"
  rejectIf (futureDrift ctx.nAdjustedTime < block.getBlockTime) 0
    "CheckBlock() : block timestamp too far in the future"
  checkTxPositions block
  rejectIf (fCheckSig && !env.checkBlockSignature block) 100
    "CheckBlock() : bad proof-of-stake block signature"
  rejectIf (ctx.fBlockFiltering && hasLockConflict env ctx block) 0
    "CheckBlock() : found conflicting transaction with transaction lock"
  checkMasternodePayment ctx pindexBest block
  block.vtx.forM (checkBlockTx block)
  rejectIf (!decide (block.vtx.map env.getHash).Nodup) 100 "CheckBlock() : duplicate transaction"
  rejectIf (maxBlockSigOps < (block.vtx.map CTransaction.getLegacySigOpCount).sum) 100
    "CheckBlock() : out-of-bounds SigOpCount"
  rejectIf (fCheckMerkleRoot && block.hashMerkleRoot ≠
    CBlock.buildMerkleTree env.hash2 (block.vtx.map env.getHash)) 100
    "CheckBlock() : hashMerkleRoot mismatch"

/-! ### `AcceptBlock` -/

/-- `IsFinalTx(tx, nBlockHeight, nBlockTime)`, for a block height and time given by a block. -/
def isFinalTx (nBestHeight nAdjustedTime : Int) (tx : CTransaction)
    (nBlockHeight nBlockTime : Int) : Bool :=
  let nBlockHeight := if nBlockHeight = 0 then nBestHeight else nBlockHeight
  let nBlockTime := if nBlockTime = 0 then nAdjustedTime else nBlockTime
  tx.nLockTime = 0 ||
    (tx.nLockTime : Int) < (if tx.nLockTime < 500000000 then nBlockHeight else nBlockTime) ||
    tx.vin.all CTxIn.isFinal

def checkCoinStakeTimestamp (nTimeBlock : Int) (nTimeTx : Nat) : Bool :=
  nTimeBlock = nTimeTx && nTimeTx &&& 15 = 0

/-- The coinbase starts with the serialized block height. -/
def startsWithHeight (block : CBlock) (nHeight : Nat) : Bool :=
  let scriptSig := ((block.tx 0).vin.headD ⟨COutPoint.null, [], 0⟩).scriptSig
  let expect := CScript.pushInt nHeight
  !(scriptSig.length < expect.length) && scriptSig.take expect.length = expect

/-- The contextual checks of `AcceptBlock`: everything it does before the block is written to disk
and added to the index.  The result is `hashProof`. -/
def acceptBlockChecks (env : Env) (ctx : Ctx) (node : Node) (block : CBlock) :
    Except Reject Uint256 := do
  rejectIf (CBlock.currentVersion < block.nVersion) 100
    "AcceptBlock() : reject unknown block version"
  let hash := env.getBlockHash block
  rejectIf (node.mapBlockIndex hash).isSome 0 "AcceptBlock() : block already in mapBlockIndex"
  match node.mapBlockIndex block.hashPrevBlock with
  | none => dos 10 "AcceptBlock() : prev block not found"
  | some pindexPrev =>
    let nHeight := pindexPrev.nHeight + 1
    rejectIf (block.isProofOfWork && env.lastPOWBlock < nHeight) 100
      "AcceptBlock() : reject proof-of-work at height"
    rejectIf (futureDrift (block.tx 0).nTime < block.getBlockTime && block.isProofOfStake) 50
      "AcceptBlock() : coinbase timestamp is too early"
    rejectIf (block.isProofOfStake &&
      !checkCoinStakeTimestamp block.getBlockTime (block.tx 1).nTime) 50
      "AcceptBlock() : coinstake timestamp violation"
    rejectIf (block.nBits ≠
      env.getNextTargetRequired node.mapBlockIndex block.hashPrevBlock block.isProofOfStake) 100
      "AcceptBlock() : incorrect proof-of-work or proof-of-stake"
    rejectIf (futureDrift block.getBlockTime < pindexPrev.getBlockTime) 0
      "AcceptBlock() : block's timestamp is too far in the future"
    rejectIf (block.getBlockTime ≤ pindexPrev.getPastTimeLimit) 0
      "AcceptBlock() : block's timestamp is too early"
    rejectIf (!block.vtx.all fun tx =>
      isFinalTx node.nBestHeight ctx.nAdjustedTime tx nHeight block.getBlockTime) 10
      "AcceptBlock() : contains a non-final transaction"
    rejectIf (!env.checkHardened nHeight hash) 100
      "AcceptBlock() : rejected by hardened checkpoint lock-in"
    let hashProof ←
      if block.isProofOfStake then
        match env.checkProofOfStake node.mapBlockIndex node.txdb block.hashPrevBlock (block.tx 1)
          block.nBits with
        | none => error "AcceptBlock() : check proof-of-stake failed for block"
        | some hashProof => .ok hashProof
      else .ok (env.getPoWHash block)
    rejectIf (!startsWithHeight block nHeight) 100
      "AcceptBlock() : block height mismatch in coinbase"
    return hashProof

end Sphinx
