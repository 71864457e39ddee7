import Sphinx.CheckBlock

/-!
# Connecting and disconnecting a block

`connectBlock` checks a block against the transaction index and, unless it is only asked to check,
writes the changed index entries; `disconnectBlock` undoes that, transaction by transaction in
reverse.  Both return the node state, in the error also, since a failure may come after some of the
writes.
-/

namespace Sphinx

/-- The locals of `ConnectBlock` that its transaction loop changes. -/
structure ConnectState where
  mapQueuedChanges : StdMap Uint256 CTxIndex := ∅
  nFees : CAmount := 0
  nValueIn : CAmount := 0
  nValueOut : CAmount := 0
  nStakeReward : CAmount := 0
  nSigOps : Nat := 0
  nTxPos : Nat

/-- What the loop adds up for a transaction that is not the coinbase. -/
def ConnectState.tally (st : ConnectState) (tx : CTransaction) (nTxValueIn nTxValueOut : CAmount) :
    ConnectState :=
  { st with
    nValueIn := st.nValueIn + nTxValueIn
    nValueOut := st.nValueOut + nTxValueOut
    nFees := if tx.isCoinStake then st.nFees else st.nFees + (nTxValueIn - nTxValueOut)
    nStakeReward := if tx.isCoinStake then nTxValueOut - nTxValueIn else st.nStakeReward }

/-- `mapQueuedChanges[hashTx] = CTxIndex(posThisTx, tx.vout.size())`. -/
def ConnectState.queue (st : ConnectState) (hashTx : Uint256) (posThisTx : CDiskTxPos)
    (nOutputs : Nat) : ConnectState :=
  { st with mapQueuedChanges :=
      st.mapQueuedChanges.insert hashTx (CTxIndex.mk' posThisTx nOutputs) }

/-- The start of a round of the loop: the signature operations are counted, the position of the
transaction is determined and the position of the next one is set. -/
def ConnectState.advance (st : ConnectState) (tx : CTransaction) (fJustCheck : Bool) :
    ConnectState :=
  { st with
    nSigOps := st.nSigOps + tx.getLegacySigOpCount
    nTxPos := if fJustCheck then st.nTxPos else st.nTxPos + tx.getSerializeSize }

/-- The part of a round of the loop for a transaction that is not a coinbase. -/
def connectTxInputs (env : Env) (ctx : Ctx) (node : Node) (pindex : CBlockIndex)
    (posThisTx : CDiskTxPos) (st : ConnectState) (tx : CTransaction) :
    Except Reject ConnectState := do
  let mapInputs ← (fetchInputs env node.txdb node.mempool st.mapQueuedChanges true false
    tx).mapError Prod.fst
  let nP2SH ← getP2SHSigOpCount tx mapInputs
  rejectIf (maxBlockSigOps < st.nSigOps + nP2SH) 100 "ConnectBlock() : too many sigops"
  let nTxValueIn ← getValueIn tx mapInputs
  let nTxValueOut ← tx.getValueOut
  let mapQueuedChanges ← connectInputs env ctx node.mapBlockIndex tx mapInputs
    st.mapQueuedChanges posThisTx (some pindex.hashBlock) true false scriptVerifyNoCache
  return { st.tally tx nTxValueIn nTxValueOut with
    nSigOps := st.nSigOps + nP2SH, mapQueuedChanges := mapQueuedChanges }

/-- One round of the transaction loop of `ConnectBlock`. -/
def connectTx (env : Env) (ctx : Ctx) (node : Node) (pindex : CBlockIndex) (fJustCheck : Bool)
    (st : ConnectState) (tx : CTransaction) : Except Reject ConnectState := do
  let posThisTx := CDiskTxPos.pos pindex.nFile pindex.nBlockPos st.nTxPos
  let st := st.advance tx fJustCheck
  rejectIf (maxBlockSigOps < st.nSigOps) 100 "ConnectBlock() : too many sigops"
  let st ←
    if tx.isCoinBase then do
      let nTxValueOut ← tx.getValueOut
      pure { st with nValueOut := st.nValueOut + nTxValueOut }
    else connectTxInputs env ctx node pindex posThisTx st tx
  return st.queue (env.getHash tx) posThisTx tx.vout.length

/-- The reward check of a proof-of-work, respectively proof-of-stake, block. -/
def checkReward (env : Env) (node : Node) (pindex : CBlockIndex) (block : CBlock)
    (st : ConnectState) : Except Reject Unit :=
  if block.isProofOfWork then do
    let nReward := getCoinbaseValue pindex.nHeight st.nFees
    let nValueOut ← (block.tx 0).getValueOut
    rejectIf (nReward < nValueOut) 50 "ConnectBlock() : coinbase reward exceeded"
  else do
    match getCoinAge env node.mapBlockIndex node.txdb pindex.pprev (block.tx 1) with
    | .error _ => error "ConnectBlock() : unable to get coin age for coinstake"
    | .ok nCoinAge =>
      let nCalculatedStakeReward := getCoinstakeValue nCoinAge st.nFees pindex.nHeight
      rejectIf (nCalculatedStakeReward < st.nStakeReward) 100
        "ConnectBlock() : coinstake pays too much"

/-- The position of the first transaction of a block; `CBlock()` is an empty block. -/
def firstTxPos (pindex : CBlockIndex) (block : CBlock) (fJustCheck : Bool) : Nat :=
  if fJustCheck then 1
  else pindex.nBlockPos + CBlock.getSerializeSize { hashPrevBlock := 0, nTime := 0, vtx := [] } -
    2 * getSizeOfCompactSize 0 + getSizeOfCompactSize block.vtx.length

/-- The checks of `ConnectBlock` and the values they compute; nothing is written yet. -/
def connectChecks (env : Env) (ctx : Ctx) (node : Node) (block : CBlock) (pindex : CBlockIndex)
    (fJustCheck : Bool) : Except Reject ConnectState := do
  checkBlock env ctx (node.pindexBest.bind node.mapBlockIndex) block (!fJustCheck) (!fJustCheck)
    false
  let st ← block.vtx.foldlM (connectTx env ctx node pindex fJustCheck)
    { nTxPos := firstTxPos pindex block fJustCheck }
  checkReward env node pindex block st
  return st

/-- `nMoneySupply` of the previous block, `0` if there is none. -/
def prevMoneySupply (mapBlockIndex : BlockMap) (pindex : CBlockIndex) : CAmount :=
  match pindex.pprev.bind mapBlockIndex with
  | none => 0
  | some pprev => pprev.nMoneySupply

/-- The entry with the mint amount and money supply of the connected block recorded. -/
def recordSupply (mapBlockIndex : BlockMap) (pindex : CBlockIndex) (st : ConnectState) :
    CBlockIndex :=
  { pindex with
    nMint := st.nValueOut - st.nValueIn + st.nFees
    nMoneySupply := prevMoneySupply mapBlockIndex pindex + st.nValueOut - st.nValueIn }

/-- Write the queued index changes. -/
def writeQueued (txdb : CTxDB) (mapQueuedChanges : StdMap Uint256 CTxIndex) : CTxDB :=
  mapQueuedChanges.entries.foldl (fun txdb e => txdb.updateTxIndex e.1 e.2) txdb

/-- Write the addresses of one script into the address index. -/
def writeAddrs (env : Env) (hashTx : Uint256) (txdb : CTxDB) (txout : CTxOut) : CTxDB :=
  match env.buildAddrIndex txout.scriptPubKey with
  | none => txdb
  | some addrIds => addrIds.foldl (fun txdb addrId => txdb.writeAddrIndex addrId hashTx) txdb

/-- The address index entries of one transaction: all outputs of its previous transactions, and its
own outputs. -/
def writeAddrIndexTx (env : Env) (pool : CTxMemPool) (txdb : CTxDB) (tx : CTransaction) :
    Except (Reject × CTxDB) CTxDB := do
  let hashTx := env.getHash tx
  let txdb ←
    if tx.isCoinBase then pure txdb
    else match fetchInputs env txdb pool ∅ true false tx with
      | .error r => .error (r.1, txdb)
      | .ok mapInputs => pure (mapInputs.entries.foldl
          (fun txdb e => e.2.2.vout.foldl (writeAddrs env hashTx) txdb) txdb)
  return tx.vout.foldl (writeAddrs env hashTx) txdb

/-- Record in the database, without changing it in memory, which block follows `pindex->pprev`. -/
def writeHashNext (node : Node) (txdb : CTxDB) (pindex : CBlockIndex) (hashNext : Uint256) :
    CTxDB :=
  match pindex.pprev.bind node.mapBlockIndex with
  | none => txdb
  | some pprev => txdb.writeBlockIndex { CDiskBlockIndex.ofIndex pprev with hashNext := hashNext }

/-- The writes of `ConnectBlock`, after its checks. -/
def connectWrites (env : Env) (node : Node) (block : CBlock) (pindex : CBlockIndex)
    (st : ConnectState) (fJustCheck : Bool) : Except (Reject × Node) Node :=
  let pindex := recordSupply node.mapBlockIndex pindex st
  let node := { node with
    mapBlockIndex := Function.update node.mapBlockIndex pindex.hashBlock (some pindex)
    txdb := node.txdb.writeBlockIndex (CDiskBlockIndex.ofIndex pindex) }
  if fJustCheck then .ok node
  else
    let txdb := writeQueued node.txdb st.mapQueuedChanges
    match (if env.fAddrIndex then block.vtx.foldlM (writeAddrIndexTx env node.mempool) txdb
      else .ok txdb) with
    | .error (r, txdb) => .error (r, { node with txdb := txdb })
    | .ok txdb => .ok { node with
        txdb := writeHashNext node txdb pindex pindex.hashBlock
        walletSyncs := node.walletSyncs ++ block.vtx.map fun tx => (tx, true) }

def connectBlock (env : Env) (ctx : Ctx) (node : Node) (block : CBlock) (pindex : CBlockIndex)
    (fJustCheck : Bool := false) : Except (Reject × Node) Node :=
  match connectChecks env ctx node block pindex fJustCheck with
  | .error r => .error (r, node)
  | .ok st => connectWrites env node block pindex st fJustCheck

def disconnectBlock (env : Env) (node : Node) (block : CBlock) (pindex : CBlockIndex) :
    Except (Reject × Node) Node :=
  match block.vtx.reverse.foldlM (disconnectInputs env) node.txdb with
  | .error (r, txdb) => .error (r, { node with txdb := txdb })
  | .ok txdb => .ok { node with
      txdb := writeHashNext node txdb pindex 0
      walletSyncs := node.walletSyncs ++ block.vtx.map fun tx => (tx, false) }

end Sphinx
